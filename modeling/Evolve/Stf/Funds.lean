import Mathlib
import Evolve.Stf.Atomicity
import Evolve.Stf.Nesting

/-! Funds: what account code is told that it received, and what has been transferred to it. -/

namespace Evolve

open Machine Borsh Effects

/-- The payments that the innermost call of `doExec` has executed. -/
def Stack.paid : Stack → List Payment
  | .exec _ _ _ _ paid :: _ => paid
  | .call _ _ :: _ => []
  | _ :: stack => Stack.paid stack
  | [] => []

/-- Where account code is executed or initialised with funds, the enclosing call has executed one
payment for each asset of the funds, from the sender of the frame to the account of the frame, and
no other payment. -/
def Action.creditsFunds : Action → Bool
  | .begins (.code .query _ _ _ :: _) _ => true
  | .begins (.code _ frame _ _ :: stack) _ =>
    frame.funds.isEmpty ||
      Stack.paid stack == frame.funds.map (Payment.mk frame.sender frame.whoami)
  | _ => true

/-- An account is created with funds. -/
def Action.createsWithFunds : Action → Bool
  | .begins (.code .init frame _ _ :: .create _ _ :: _) _ =>
    !frame.funds.isEmpty && frame.whoami != runtimeAccountId
  | _ => false

section

variable {root : Invoker} {op : EnvOp} {frame : Invoker} {funds : List FungibleAsset}
  {stack : Stack}

theorem Live.paid_exec {target : AccountId} {data : InvokeRequest} {paid : List Payment}
    (h : Live (· = [.call root op]) (.exec frame target data funds paid :: stack))
    (hfunds : funds ≠ []) : paid = funds.map (Payment.mk frame.whoami target) := by
  cases h with
  | root hr => cases hr
  | begets live hbegets =>
    cases hbegets with
    | transfer => exact absurd rfl hfunds
    | deliver => rfl

theorem Live.paid_create (h : Live (· = [.call root op]) (.create frame funds :: stack))
    (hfunds : funds ≠ []) : stack.paid = funds.map (Payment.mk frame.whoami runtimeAccountId) := by
  cases h with
  | root hr => cases hr
  | begets live hbegets =>
    cases hbegets
    exact live.paid_exec hfunds

end

theorem map_payment_inj {funds : List FungibleAsset} (hfunds : funds ≠ [])
    (sender recipient recipient' : AccountId) :
    funds.map (Payment.mk sender recipient) = funds.map (Payment.mk sender recipient') ↔
      recipient = recipient' := by
  obtain ⟨asset, rest, rfl⟩ := List.exists_cons_of_ne_nil hfunds
  constructor
  · intro h
    simp only [List.map_cons, List.cons.injEq, Payment.mk.injEq] at h
    exact h.1.2.1
  · rintro rfl
    rfl

theorem Live.creditsFunds_begins {root : Invoker} {op : EnvOp} {stack : Stack}
    (h : Live (· = [.call root op]) stack) (w : World) :
    (Action.begins stack w).creditsFunds = true ↔
      (Action.begins stack w).createsWithFunds = false := by
  cases h with
  | root hr => subst hr; simp [Action.creditsFunds, Action.createsWithFunds]
  | migrated => simp [Action.creditsFunds, Action.createsWithFunds]
  | issue => simp [Action.creditsFunds, Action.createsWithFunds]
  | hook => simp [Action.creditsFunds, Action.createsWithFunds]
  | begets live hbegets =>
    cases hbegets with
    | @execute frame target data funds paid code =>
      by_cases hfunds : funds = []
      · simp [Action.creditsFunds, Action.createsWithFunds, Invoker.branchExec, hfunds]
      · obtain rfl := live.paid_exec hfunds
        simp [Action.creditsFunds, Action.createsWithFunds, Invoker.branchExec, Stack.paid]
    | @createInit frame funds account code request =>
      by_cases hfunds : funds = []
      · simp [Action.creditsFunds, Action.createsWithFunds, Invoker.branchExec, hfunds]
      · have hpaid := live.paid_create hfunds
        have hinj := (map_payment_inj hfunds frame.whoami runtimeAccountId account).trans eq_comm
        simp [Action.creditsFunds, Action.createsWithFunds, Invoker.branchExec, Stack.paid, hpaid,
          hfunds, hinj]
    | registerInit => simp [Action.creditsFunds, Action.createsWithFunds, Invoker.branchExec]
    | _ => simp [Action.creditsFunds, Action.createsWithFunds]

/-- For all account codes and every call, of whatever calls it leads to: wherever account code runs
with funds these have been transferred to it in the enclosing call of `doExec`, if and only if no
account is created with funds. -/
theorem creditsFunds_iff (host : Host) (fuel : Nat) (frame : Invoker) (op : EnvOp) (w : World) :
    (∀ action ∈ (tracedEnvironment host fuel [] frame op).log w, action.creditsFunds) ↔
      ∀ action ∈ (tracedEnvironment host fuel [] frame op).log w, ¬ action.createsWithFunds := by
  refine forall₂_congr fun action haction => ?_
  cases action with
  | begins stack w' =>
    rw [Live.creditsFunds_begins (sound_of_mem_call haction) w', Bool.not_eq_true]
  | write => simp [Action.creditsFunds, Action.createsWithFunds]

/-! ### A creation with funds -/

/-- The frame in which a transaction of an account is executed. -/
def sampleFrame : Invoker :=
  (Invoker.newForValidateTx (FixedBytes.repeatByte 32 0) ⟨1, 0⟩).intoNewExec (.fromU64 12)

/-- A request to create an account with the code `idle`. -/
def createIdle : InvokeRequest :=
  ⟨"create_account", 1, [4, 0, 0, 0, 105, 100, 108, 101, 0, 0, 0, 0]⟩

/-- The payment for the funds of the new account goes to the runtime account. -/
theorem create_with_funds_not_credited :
    InvokeRequest.new (CreateAccountRequest.mk "idle" []) = .ok createIdle ∧
      ∃ action ∈ (tracedEnvironment sampleHost 3 [] sampleFrame
          (.doExec runtimeAccountId createIdle [⟨.fromU64 10, 5⟩])).log sampleWorld,
        action.creditsFunds = false ∧
          action.stack.paid = [⟨.fromU64 12, runtimeAccountId, ⟨.fromU64 10, 5⟩⟩] := by
  refine ⟨by decide, ?_⟩
  have hany : ((tracedEnvironment sampleHost 3 [] sampleFrame
      (.doExec runtimeAccountId createIdle [⟨.fromU64 10, 5⟩])).log sampleWorld).any (fun action =>
        action.creditsFunds == false && decide (action.stack.paid =
          [⟨.fromU64 12, runtimeAccountId, ⟨.fromU64 10, 5⟩⟩])) = true := by decide +kernel
  simpa using hany

end Evolve
