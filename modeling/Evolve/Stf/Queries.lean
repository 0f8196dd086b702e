import Mathlib
import Evolve.Stf.Atomicity
import Evolve.Stf.Nesting

/-! Queries from outside of a block, with a context of sender, funds and block: which of it the
code of the queried account sees. -/

namespace Evolve

open Machine Borsh Effects

structure QueryContext where
  gasLimit : Option UInt64
  sender : AccountId
  funds : List FungibleAsset
  block : BlockContext

namespace Stf

variable {Tx Block : Type} (host : Host) (fuel : Nat) (stf : Stf Tx Block) (storage : ReadonlyKV)
  (target : AccountId) (request : InvokeRequest) (context : QueryContext)

def queryGasCounter : GasCounter :=
  match context.gasLimit with
  | some limit => .finite limit 0 stf.storageGasConfig
  | none => .infinite

def queryWorld : World := ⟨.new storage, stf.queryGasCounter context, []⟩

def queryFrame : Invoker :=
  .newForQueryWithContext target context.sender context.funds context.block

def runQuery : Run TxResult := do
  let response ← Exec.attempt
    (environment host fuel (queryFrame target context) (.doQuery target request))
  txResult response

def queryInvokeRequest : Outcome (SdkResult TxResult × World) :=
  runQuery host fuel target request context (stf.queryWorld storage context)

def runTypedQuery {Req : Type} [InvokableMessage Req] (req : Req) : Run InvokeResponse := do
  let request ← Exec.ofExcept (InvokeRequest.new req)
  environment host fuel (.newForQuery target) (.doQuery target request)

def query {Req : Type} [InvokableMessage Req] (req : Req) (gas : GasCounter) :
    Outcome (SdkResult InvokeResponse × World) :=
  runTypedQuery host fuel target req ⟨.new storage, gas, []⟩

/-! ### What account code sees -/

/-- What happens in the query. -/
def queryTrace : List Action :=
  (tracedEnvironment host fuel [] (queryFrame target context) (.doQuery target request)).log
    (stf.queryWorld storage context)

/-- The code that answers the query sees the sender, the funds and the block of the context. -/
def SeesContext : Prop :=
  ∀ frame code data w, .begins [.code .query frame code data,
      .call (queryFrame target context) (.doQuery target request)] w ∈
        queryTrace host fuel stf storage target request context →
    frame.env.sender = context.sender ∧ frame.env.funds = context.funds ∧
      frame.env.block = context.block

/-- The query is answered by account code. -/
def AnsweredByCode : Prop :=
  target ≠ runtimeAccountId ∧ target ≠ storageAccountId ∧
    ∃ code w, Invoker.codeOf host target (stf.queryWorld storage context) = .done (.ok code, w)

variable {host fuel stf storage target request context}

variable {code : AccountCode}

theorem frame_of_mem_queryTrace {frame : Invoker} {data : InvokeRequest} {w : World}
    (h : .begins [.code .query frame code data,
      .call (queryFrame target context) (.doQuery target request)] w ∈
        queryTrace host fuel stf storage target request context) :
    target ≠ runtimeAccountId ∧ target ≠ storageAccountId ∧
      frame = (queryFrame target context).branchQuery target := by
  have hlive : Live _ _ := sound_of_mem_call h
  cases hlive with
  | root hroot => cases hroot
  | begets _ hbegets =>
    cases hbegets with
    | query hruntime hstorage => exact ⟨hruntime, hstorage, rfl⟩

theorem queryTrace_succ : queryTrace host (fuel + 1) stf storage target request context =
    .begins [.call (queryFrame target context) (.doQuery target request)]
      (stf.queryWorld storage context) ::
    (Traced.doQuery host (tracedEnvironment host fuel) (queryFrame target context) target request
      [.call (queryFrame target context) (.doQuery target request)]).log
        (stf.queryWorld storage context) := rfl

theorem begins_mem_queryTrace (hruntime : target ≠ runtimeAccountId)
    (hstorage : target ≠ storageAccountId) {w : World}
    (hcode : Invoker.codeOf host target (stf.queryWorld storage context) = .done (.ok code, w)) :
    .begins [.code .query ((queryFrame target context).branchQuery target) code request,
      .call (queryFrame target context) (.doQuery target request)] w ∈
        queryTrace host (fuel + 1) stf storage target request context := by
  rw [queryTrace_succ]
  refine List.mem_cons_of_mem _ ?_
  unfold Traced.doQuery
  rw [if_neg hruntime, if_neg hstorage, Logged.log_bind, Logged.exec_lift, hcode]
  exact List.mem_append_right _ (List.mem_append_left _ (List.mem_singleton_self _))

theorem answeredByCode_of_mem_queryTrace {frame : Invoker} {data : InvokeRequest} {w : World}
    (h : .begins [.code .query frame code data,
      .call (queryFrame target context) (.doQuery target request)] w ∈
        queryTrace host (fuel + 1) stf storage target request context) :
    AnsweredByCode host stf storage target context := by
  obtain ⟨hruntime, hstorage, -⟩ := frame_of_mem_queryTrace h
  refine ⟨hruntime, hstorage, ?_⟩
  rw [queryTrace_succ] at h
  obtain h | h := List.mem_cons.mp h
  · cases h
  · unfold Traced.doQuery at h
    rw [if_neg hruntime, if_neg hstorage, Logged.log_bind, Logged.exec_lift] at h
    split at h
    · rename_i code' w' hcode
      exact ⟨code', w', hcode⟩
    · exact (List.not_mem_nil h).elim

variable (host fuel stf storage target request context) in
/-- For every storage, account code, target, request and context: the code that answers a query sees
the sender, the funds and the block of the context if and only if the context names the runtime as
the sender and has no funds, or no account code answers. -/
theorem seesContext_iff :
    SeesContext host (fuel + 1) stf storage target request context ↔
      (AnsweredByCode host stf storage target context →
        context.sender = runtimeAccountId ∧ context.funds = []) := by
  constructor
  · rintro hsees ⟨hruntime, hstorage, code, w, hcode⟩
    obtain ⟨hsender, hfunds, -⟩ := hsees _ _ _ _ (begins_mem_queryTrace hruntime hstorage hcode)
    exact ⟨hsender.symm, hfunds.symm⟩
  · intro hcontext frame code data w h
    obtain ⟨-, -, rfl⟩ := frame_of_mem_queryTrace h
    obtain ⟨hsender, hfunds⟩ := hcontext (answeredByCode_of_mem_queryTrace h)
    exact ⟨hsender.symm, hfunds.symm, rfl⟩

/-! ### Queries with an expected answer -/

/-- An account of the storage whose calls are answered by `code`. -/
structure RunsCode (host : Host) (storage : ReadonlyKV) (target : AccountId) (code : AccountCode) :
    Prop where
  ne_runtime : target ≠ runtimeAccountId
  ne_storage : target ≠ storageAccountId
  code : ∃ codeId, (ExecutionState.new storage).codeIdentifier target = .ok (some codeId) ∧
    host.withCode codeId = .ok (some code)

theorem follows_typedQuery (h : RunsCode host storage target code) {Req : Type}
    [InvokableMessage Req] {req : Req} (hrequest : InvokeRequest.new req = .ok request)
    {gas : GasCounter} {stop : ErrorCode → Prop} {expected : SdkResult InvokeResponse}
    (hcode : Exec.Follows stop expected
      ((code.query ((Invoker.newForQuery target).branchQuery target).env request).lift.run
        (environment host fuel ((Invoker.newForQuery target).branchQuery target)))
      (World.countRead ⟨.new storage, gas, []⟩)) :
    Exec.Follows stop expected (runTypedQuery host (fuel + 1) target req)
      ⟨.new storage, gas, []⟩ := by
  unfold runTypedQuery
  rw [hrequest]
  show Exec.Follows _ _ (Invoker.doQuery host (environment host fuel) _ target request) _
  unfold Invoker.doQuery
  rw [if_neg h.ne_runtime, if_neg h.ne_storage]
  obtain ⟨codeId, hcodeId, hhost⟩ := h.code
  obtain ⟨r, w, hrun, hr⟩ := hcode
  refine ⟨r, w, ?_, hr⟩
  rw [Exec.bind_apply,
    Invoker.codeOf_of_codeIdentifier (w := ⟨.new storage, gas, []⟩) hcodeId hhost]
  exact hrun

/-! ### A query that asks who is asking -/

/-- Code that answers every query with its sender. -/
def echoCode : AccountCode where
  init _ _ := Prog.throw errUnauthorized
  execute _ _ := Prog.throw errUnauthorized
  query env _ := Prog.ofExcept (InvokeResponse.new env.sender)

def echoHost : Host := { sampleHost with withCode := fun _ => .ok (some echoCode) }

def queryContext (sender : AccountId) : QueryContext := ⟨none, sender, [], ⟨5, 60⟩⟩

theorem echo_ends :
    Exec.Ends (runQuery echoHost 2 (.fromU64 10) (Invoker.initRequest [])
        (queryContext (.fromU64 7)))
      (fun r _ => (r.bind fun result => result.response.bind InvokeResponse.get) =
        (.ok runtimeAccountId : SdkResult AccountId))
      (testStf.queryWorld sampleStore (queryContext (.fromU64 7))) ∧
    Exec.Ends (Invoker.codeOf echoHost (.fromU64 10)) (fun r _ => r.toOption.isSome)
      (testStf.queryWorld sampleStore (queryContext (.fromU64 7))) := by
  decide +kernel

/-- An account that a query in the name of account 7 asks for its sender answers the runtime. -/
theorem query_hides_sender :
    (∃ result w, queryInvokeRequest echoHost 2 testStf sampleStore (.fromU64 10)
        (Invoker.initRequest []) (queryContext (.fromU64 7)) = .done (.ok result, w) ∧
      result.response.bind InvokeResponse.get = (.ok runtimeAccountId : SdkResult AccountId)) ∧
    ¬ SeesContext echoHost 2 testStf sampleStore (.fromU64 10) (Invoker.initRequest [])
      (queryContext (.fromU64 7)) := by
  constructor
  · obtain ⟨r, w, hrun, hr⟩ := echo_ends.1.exists
    cases r with
    | error e => cases hr
    | ok result => exact ⟨result, w, hrun, hr⟩
  · intro hsees
    obtain ⟨r, w, hcode, hr⟩ := echo_ends.2.exists
    cases r with
    | error e => cases hr
    | ok code =>
      have hseen := hsees _ _ _ _ (begins_mem_queryTrace (by decide) (by decide) hcode)
      exact absurd hseen.1 (by decide)

end Stf

end Evolve
