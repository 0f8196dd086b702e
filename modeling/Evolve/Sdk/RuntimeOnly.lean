import Mathlib
import Evolve.Sdk.Scheduler
import Evolve.Stf.Atomicity
import Evolve.Stf.FailedTx
import Evolve.Stf.Nesting

/-! Which account code a transaction can reach that sees the runtime account as its sender, and what
becomes of the functions that the scheduler keeps for the runtime. -/

namespace Evolve

open Machine Borsh Effects

/-- The request of an account that migrates itself to itself, or the transfer of an asset that is
sent along with it.  The runtime account has no code to migrate. -/
inductive OwnMigration : AccountId → InvokeRequest → Stack → Prop
  | message {frame outer : Invoker} {request : InvokeRequest} {funds : List FungibleAsset}
      {paid : List Payment} {rest : Stack} (account : outer.whoami ≠ runtimeAccountId) :
      OwnMigration outer.whoami request (.exec frame outer.whoami request funds paid ::
        .call frame (.doExec outer.whoami request funds) :: .migrate outer funds :: rest)
  | transfer {frame outer : Invoker} {message request : InvokeRequest}
      {funds : List FungibleAsset} {asset : FungibleAsset} {paid : List Payment} {rest : Stack}
      (account : outer.whoami ≠ runtimeAccountId) (mem : asset ∈ funds)
      (new : InvokeRequest.new (TransferMsg.mk outer.whoami asset.amount) = .ok request) :
      OwnMigration asset.assetId request (.exec frame asset.assetId request [] paid ::
        .call frame (.doExec outer.whoami message funds) :: .migrate outer funds :: rest)

theorem OwnMigration.stack_eq {account : AccountId} {request : InvokeRequest} {stack : Stack}
    (h : OwnMigration account request stack) :
    ∃ frame target data funds paid op outer funds' rest,
      stack = .exec frame target data funds paid :: .call frame op ::
        .migrate outer funds' :: rest ∧
        outer.whoami ≠ runtimeAccountId := by
  cases h with
  | message haccount => exact ⟨_, _, _, _, _, _, _, _, _, rfl, haccount⟩
  | transfer haccount => exact ⟨_, _, _, _, _, _, _, _, _, rfl, haccount⟩

/-- The account on whose behalf something is done: that whose code runs, that of the transaction or
that which migrates. -/
def Stack.principal : Stack → Option AccountId
  | .code _ frame _ _ :: _ => some frame.whoami
  | .phase _ frame :: _ => some frame.whoami
  | .migrate frame _ :: _ => some frame.whoami
  | _ :: stack => Stack.principal stack
  | [] => none

/-- Code that initialises an account at the identifier of the runtime account. -/
def Activity.initialisesRuntime : Activity → Bool
  | .code .init inner _ _ => inner.whoami == runtimeAccountId
  | _ => false

/-! ### Who starts account code -/

section

variable {frame inner : Invoker} {entry : Entry} {code : AccountCode} {request : InvokeRequest}
  {stack : Stack}

/-- Account code is executed or initialised in a call of `doExec` of its sender, which hands it the
request or has the runtime account create or register it. -/
theorem Live.code_cases (h : Live (InPhaseOf frame) (.code entry inner code request :: stack))
    (hentry : entry ≠ .query) :
    ∃ caller target data funds, ∃ rest : Stack,
      Live (InPhaseOf frame) (.call caller (.doExec target data funds) :: rest) ∧
      inner.sender = caller.whoami ∧ stack.principal = rest.principal ∧
      ((∃ funds' paid, stack = .exec caller inner.whoami request funds' paid ::
            .call caller (.doExec target data funds) :: rest ∧
          HandsOver target data funds inner.whoami request funds') ∨
        target = runtimeAccountId) := by
  cases h with
  | root hr => obtain ⟨_, ⟨⟩⟩ := hr
  | begets live hbegets =>
    cases hbegets with
    | query => exact absurd rfl hentry
    | execute =>
      obtain ⟨_, _, _, _, rfl, hcall, hhands⟩ := live.exec_cases starts_of_inPhaseOf
      exact ⟨_, _, _, _, _, hcall, rfl, rfl, .inl ⟨_, _, rfl, hhands⟩⟩
    | createInit =>
      cases live with
      | root hr => obtain ⟨_, ⟨⟩⟩ := hr
      | begets live hbegets =>
        cases hbegets with
        | create hfunction =>
          obtain ⟨_, _, _, _, rfl, hcall, hhands⟩ := live.exec_cases starts_of_inPhaseOf
          refine ⟨_, _, _, _, _, hcall, rfl, rfl, .inr (hhands.target_eq ?_)⟩
          rw [hfunction]
          decide
    | registerInit =>
      cases live with
      | root hr => obtain ⟨_, ⟨⟩⟩ := hr
      | begets live hbegets =>
        cases hbegets with
        | register hfunction =>
          obtain ⟨_, _, _, _, rfl, hcall, hhands⟩ := live.exec_cases starts_of_inPhaseOf
          refine ⟨_, _, _, _, _, hcall, rfl, rfl, .inr (hhands.target_eq ?_)⟩
          rw [hfunction]
          decide

/-- Account code that is not started on behalf of the runtime account sees it as its sender only in
a migration. -/
theorem Live.ownMigration (h : Live (InPhaseOf frame) (.code entry inner code request :: stack))
    (hentry : entry ≠ .query) (hprincipal : stack.principal ≠ some runtimeAccountId)
    (hsender : inner.sender = runtimeAccountId) : OwnMigration inner.whoami request stack := by
  obtain ⟨caller, target, data, funds, rest, hcall, hcaller, hrest, hstarts⟩ :=
    h.code_cases hentry
  have hcaller : caller.whoami = runtimeAccountId := hcaller.symm.trans hsender
  rw [hrest] at hprincipal
  rcases hcall.doExec_cases starts_of_inPhaseOf with ⟨_, _, _, _, rfl, -⟩ |
    ⟨outer, _, rfl, -, rfl, rfl⟩ | ⟨_, rfl⟩
  · exact absurd (congrArg some hcaller) hprincipal
  · have haccount : outer.whoami ≠ runtimeAccountId := fun h => hprincipal (congrArg some h)
    rcases hstarts with ⟨_, _, rfl, hhands⟩ | hruntime
    · rcases hhands with ⟨hwhoami, rfl, rfl⟩ | ⟨asset, hmem, hwhoami, rfl, hnew⟩
      · rw [hwhoami]
        exact .message haccount
      · rw [hwhoami]
        exact .transfer haccount hmem hnew
    · exact absurd hruntime haccount
  · exact absurd (congrArg some hcaller) hprincipal

/-- Nothing is done on behalf of the runtime account by a transaction of another account, unless
code initialises an account at its identifier. -/
theorem Live.principal_ne {stack : Stack} (h : Live (InPhaseOf frame) stack)
    (hframe : frame.whoami ≠ runtimeAccountId)
    (hinit : ∀ activity ∈ stack, activity.initialisesRuntime = false) :
    stack.principal ≠ some runtimeAccountId := by
  induction h with
  | root hr =>
    obtain ⟨_, rfl⟩ := hr
    exact fun h => hframe (Option.some.inj h)
  | issue _ _ ih => exact ih fun activity h => hinit activity (List.mem_cons_of_mem _ h)
  | migrated _ ih => exact ih fun activity h => hinit activity (List.mem_cons_of_mem _ h)
  | hook _ ih => exact ih fun activity h => hinit activity (List.mem_cons_of_mem _ h)
  | begets live hbegets ih =>
    replace ih := ih fun activity h => hinit activity (List.mem_cons_of_mem _ h)
    have hself := hinit _ List.mem_cons_self
    cases hbegets with
    | transfer | deliver | create | register => exact ih
    | query hruntime | execute hruntime => exact fun h => hruntime (Option.some.inj h)
    | createInit | registerInit =>
      intro h
      rw [Activity.initialisesRuntime, Option.some.inj h] at hself
      cases hself
    | migrate hfunction =>
      -- the account that migrates is the one that called the runtime account
      obtain ⟨target, _, _, _, rfl, hcall, hhands⟩ := live.exec_cases starts_of_inPhaseOf
      rcases hcall.doExec_cases starts_of_inPhaseOf with ⟨_, _, _, _, rfl, -⟩ |
        ⟨outer, _, rfl, -, rfl, rfl⟩ | ⟨_, rfl⟩
      · exact ih
      · have htarget : outer.whoami = runtimeAccountId := hhands.target_eq (by
          rw [hfunction]
          decide)
        exact absurd (congrArg some htarget) ih
      · exact ih

end

/-! ### The execution of a transaction -/

section

variable {Tx Block : Type} [Transaction Tx] (host : Host) (fuel : Nat) (stf : Stf Tx Block)
  (tx : Tx) (sender : AccountId) (block : BlockContext) (w : World)

/-- In the execution of a transaction, account code that sees the runtime account as its sender is
reached by a migration only, and the scheduler does nothing that is not reached so. -/
structure RuntimeOnly : Prop where
  migrations : ∀ entry inner code request stack w₀,
    Action.begins (.code entry inner code request :: stack) w₀ ∈
      (Traced.executeTxPhase host fuel stf tx sender block).log w →
    entry ≠ .query → inner.sender = runtimeAccountId → OwnMigration inner.whoami request stack
  scheduler : ∀ inner request stack w₀,
    Action.begins (.code .execute inner Scheduler.code request :: stack) w₀ ∈
      (Traced.executeTxPhase host fuel stf tx sender block).log w →
    ¬ OwnMigration inner.whoami request stack →
    Scheduler.Refuses (Scheduler.execute inner.env request)

/-- For all account codes and transactions: if the sender is not the runtime account, and no code
initialises an account at the identifier of the runtime account, then account code that the
execution reaches sees the runtime account as its sender only in a migration of an account, and the
functions of the scheduler cannot be run otherwise. -/
theorem runtimeOnly_of_not_initialised (hsender : sender ≠ runtimeAccountId)
    (hinit : ∀ action ∈ (Traced.executeTxPhase host fuel stf tx sender block).log w,
      ∀ activity ∈ action.stack, activity.initialisesRuntime = false) :
    RuntimeOnly host fuel stf tx sender block w := by
  have hmigrations : ∀ entry inner code request stack w₀,
      Action.begins (.code entry inner code request :: stack) w₀ ∈
        (Traced.executeTxPhase host fuel stf tx sender block).log w →
      entry ≠ .query → inner.sender = runtimeAccountId →
        OwnMigration inner.whoami request stack := by
    intro entry inner code request stack w₀ hmem hentry
    have hlive : Live (InPhaseOf (Stf.executionFrame tx sender block))
        (.code entry inner code request :: stack) := sound_of_mem_executeTxPhase hmem
    refine hlive.ownMigration hentry ?_
    refine (hlive.tail (by rintro ⟨_, ⟨⟩⟩)).principal_ne hsender fun activity hactivity => ?_
    exact hinit _ hmem activity (List.mem_cons_of_mem _ hactivity)
  refine ⟨hmigrations, fun inner request stack w₀ hmem hnot => ?_⟩
  refine Scheduler.refuses_execute (fun hruntime => hnot ?_) request
  exact hmigrations _ _ _ _ _ _ hmem (by decide) hruntime

end

/-! ### An account at the identifier of the runtime account -/

namespace Scheduler

def requestOf {Msg : Type} [InvokableMessage Msg] (msg : Msg) : InvokeRequest :=
  ((InvokeRequest.new msg).toOption).getD (Invoker.initRequest [])

/-- Code that migrates its account when another account calls it. -/
def movingCode : AccountCode where
  init _ _ := Prog.ofExcept (InvokeResponse.new ())
  execute env request :=
    if env.sender = runtimeAccountId then Prog.ofExcept (InvokeResponse.new ())
    else .call (.doExec runtimeAccountId (requestOf (MigrateRequest.mk env.whoami "moved" request))
      []) Prog.ofExcept
  query _ _ := Prog.throw errUnknownFunction

/-- Code that replaces the accounts of the scheduler when it is initialised. -/
def intruderCode : AccountCode where
  init _ _ := do
    execAccount Unit (.fromU64 10) (UpdateBeginBlockersMsg.mk [.fromU64 12]) []
    Prog.ofExcept (InvokeResponse.new ())
  execute _ _ := Prog.throw errUnknownFunction
  query _ _ := Prog.throw errUnknownFunction

def schedulerHost : Host where
  withCode codeId :=
    .ok (if codeId = "scheduler" then some code
      else if codeId = "intruder" then some intruderCode
      else if codeId = "moving" ∨ codeId = "moved" then some movingCode else none)
  isAlphanumeric c := c.isAlphanum

/-- A scheduler at account 10 that calls no account, and an account 20 that can migrate. -/
def schedulerStore : ReadonlyKV := fun key =>
  if key = accountCodeIdentifierKey (.fromU64 10) then (Message.new "scheduler").map some
  else if key = Invoker.accountStorageKey (.fromU64 10) [0] then .ok (some [0, 0, 0, 0])
  else if key = accountCodeIdentifierKey (.fromU64 20) then (Message.new "moving").map some
  else .ok none

def schedulerWorld : World := ⟨.new schedulerStore, .infinite, []⟩

/-- A call of account 20, which migrates and hands the request to its new code. -/
def movingTx : TestTx := ⟨.fromU64 12, .fromU64 20, Invoker.initRequest [], 100000, [], none⟩

/-- The action executes account code that sees the runtime account as its sender. -/
def seesRuntime : Action → Bool
  | .begins (.code .execute inner _ _ :: _) _ => inner.sender == runtimeAccountId
  | _ => false

/-- The new code sees the runtime account as its sender, in the migration of its account. -/
theorem runtimeOnly_movingTx :
    ((Traced.executeTxPhase schedulerHost 4 testStf movingTx (.fromU64 12) ⟨1, 0⟩).log
        schedulerWorld).any seesRuntime = true ∧
      RuntimeOnly schedulerHost 4 testStf movingTx (.fromU64 12) ⟨1, 0⟩ schedulerWorld :=
  ⟨by decide +kernel,
    runtimeOnly_of_not_initialised _ _ _ _ _ _ _ (by decide) (by decide +kernel)⟩

/-- The action executes account code that other code calls as the runtime account. -/
def executesForRuntime : Action → Bool
  | .begins (.code .execute inner _ _ :: .exec _ _ _ _ _ :: .call _ _ :: .code _ _ _ _ :: _) _ =>
    inner.sender == runtimeAccountId
  | _ => false

/-- A request to register an account at the identifier of the runtime account. -/
def intruderTx : TestTx :=
  ⟨.fromU64 12, runtimeAccountId,
    requestOf (RegisterAccountAtIdRequest.mk runtimeAccountId "intruder" []), 100000, [], none⟩

theorem intruderTx_admitted :
    Exec.Ends (testStf.admitTx schedulerHost 4 intruderTx ⟨1, 0⟩)
      (fun r w₁ => r = .ok (.fromU64 12) ∧
        ((Traced.executeTxPhase schedulerHost 4 testStf intruderTx (.fromU64 12) ⟨1, 0⟩).log w₁).any
          executesForRuntime = true) (testStf.metered intruderTx schedulerWorld) := by
  decide +kernel

theorem intruderTx_ends :
    Exec.Ends (testStf.applyTx schedulerHost 4 intruderTx ⟨1, 0⟩) (fun r w' =>
      (r.toOption.bind fun result => result.response.toOption).isSome ∧
        beginBlockAccounts.read w'.storage (.fromU64 10) () = .ok (some [.fromU64 12]))
      schedulerWorld := by
  decide +kernel

/-- Account 12 registers its own code as the runtime account, and the scheduler obeys that code. -/
theorem intruder_not_runtimeOnly :
    beginBlockAccounts.read schedulerWorld.storage (.fromU64 10) () = .ok (some []) ∧
      ∃ w₁ result w', testStf.admitTx schedulerHost 4 intruderTx ⟨1, 0⟩
          (testStf.metered intruderTx schedulerWorld) = .done (.ok (.fromU64 12), w₁) ∧
        testStf.applyTx schedulerHost 4 intruderTx ⟨1, 0⟩ schedulerWorld =
          .done (.ok result, w') ∧ result.response.toOption.isSome ∧
        beginBlockAccounts.read w'.storage (.fromU64 10) () = .ok (some [.fromU64 12]) ∧
        ¬ RuntimeOnly schedulerHost 4 testStf intruderTx (.fromU64 12) ⟨1, 0⟩ w₁ := by
  refine ⟨by decide +kernel, ?_⟩
  obtain ⟨_, w₁, hadmitted, rfl, hany⟩ := intruderTx_admitted.exists
  obtain ⟨r, w', hdone, hok, hread⟩ := intruderTx_ends.exists
  cases r with
  | error e => cases hok
  | ok result =>
    refine ⟨w₁, result, w', hadmitted, hdone, hok, hread, fun h => ?_⟩
    obtain ⟨action, hmem, hexecutes⟩ := List.any_eq_true.mp hany
    unfold executesForRuntime at hexecutes
    split at hexecutes
    · have hmigration := h.migrations _ _ _ _ _ _ hmem (by decide) (beq_iff_eq.mp hexecutes)
      obtain ⟨_, _, _, _, _, _, _, _, _, ⟨⟩, -⟩ := hmigration.stack_eq
    · cases hexecutes

end Scheduler

end Evolve
