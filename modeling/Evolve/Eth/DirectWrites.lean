import Mathlib
import Evolve.Eth.Gateway
import Evolve.Stf.Isolation

/-! Whose code runs when a transaction writes into the namespace of an account.  The frame of a
transaction carries the identity of the sender without running the sender's code, so a request of
the transaction itself to the storage account writes into the sender's namespace. -/

namespace Evolve

open Machine Borsh Effects

/-- The innermost account code that runs is that of the account, executed or initialised. -/
def Stack.runsCodeOf (id : AccountId) : Stack → Bool
  | .code entry frame _ _ :: _ => entry != .query && frame.whoami == id
  | _ :: stack => Stack.runsCodeOf id stack
  | [] => false

/-- The storage account is asked by the frame of the transaction itself, or by the frame of the
runtime account in a migration. -/
def Stack.asksDirectly : Stack → Bool
  | .exec _ _ _ _ _ :: .call _ _ :: .phase _ _ :: _ => true
  | .exec _ _ _ _ _ :: .call _ _ :: .migrate _ _ :: _ => true
  | _ => false

/-! ### Where writes come from -/

section

variable {frame : Invoker}

theorem Live.not_runsCodeOf_migrate {outer : Invoker} {funds : List FungibleAsset} {stack : Stack}
    (h : Live (InPhaseOf frame) (.migrate outer funds :: stack))
    (houter : outer.whoami ≠ runtimeAccountId) :
    Stack.runsCodeOf runtimeAccountId stack = false := by
  cases h with
  | root hr => obtain ⟨_, ⟨⟩⟩ := hr
  | begets live hbegets =>
    cases hbegets
    obtain ⟨_, _, _, rest, rfl, hlive, -⟩ := live.exec_cases starts_of_inPhaseOf
    rcases hlive.doExec_cases starts_of_inPhaseOf with ⟨entry, code, request, _, rfl, -⟩ |
      ⟨outer', _, rfl, -, -, rfl⟩ | ⟨phase, rfl⟩
    · simp [Stack.runsCodeOf, houter]
    · exact absurd rfl houter
    · rfl

/-- A write into the namespace of an account is made while its code runs, unless the storage account
was asked directly. -/
theorem Live.runsCodeOf_iff {stack : Stack} {id : AccountId} {suffix : Bytes}
    (h : Live (InPhaseOf frame) stack)
    (hwrites : stack.Writes (Invoker.accountStorageKey id suffix)) :
    stack.runsCodeOf id = true ↔ stack.asksDirectly = false := by
  obtain ⟨inner, data, funds, paid, rest, rfl, rfl, hfunction⟩ := hwrites.namespace
  obtain ⟨target, _, _, _, rfl, hlive, hcases⟩ := h.exec_cases starts_of_inPhaseOf
  have htarget : target = storageAccountId :=
    hcases.target_eq (by rcases hfunction with h | h <;> rw [h] <;> decide)
  rcases hlive.doExec_cases starts_of_inPhaseOf with ⟨entry, code, request, _, rfl, hentry⟩ |
    ⟨outer, _, rfl, hmigrate, houter, rfl⟩ | ⟨phase, rfl⟩
  · simp [Stack.runsCodeOf, Stack.asksDirectly, hentry]
  · have hne : outer.whoami ≠ runtimeAccountId := by
      rw [houter, htarget]
      decide
    simpa [Stack.runsCodeOf, Stack.asksDirectly, Invoker.branchExec] using
      hmigrate.not_runsCodeOf_migrate hne
  · simp [Stack.runsCodeOf, Stack.asksDirectly]

end

/-! ### The execution of a transaction -/

section

variable {Tx Block : Type} [Transaction Tx] (host : Host) (fuel : Nat) (stf : Stf Tx Block)
  (tx : Tx) (sender : AccountId) (block : BlockContext) (w : World)

/-- Every key of a namespace that the execution of a transaction changes is written, and every write
into a namespace is made, while code of the account of the namespace runs. -/
structure OwnWrites : Prop where
  writes : ∀ stack w₀ w₁ id suffix entry,
    Action.write stack w₀ w₁ (Invoker.accountStorageKey id suffix) entry ∈
      (Traced.executeTxPhase host fuel stf tx sender block).log w → stack.runsCodeOf id
  changes : ∀ r w', stf.executeTxPhase host fuel tx sender block w = .done (r, w') →
    ∀ id suffix, w'.storage.lookup (Invoker.accountStorageKey id suffix) ≠
      w.storage.lookup (Invoker.accountStorageKey id suffix) →
    ∃ stack w₀ w₁ entry, Action.write stack w₀ w₁ (Invoker.accountStorageKey id suffix) entry ∈
      (Traced.executeTxPhase host fuel stf tx sender block).log w ∧ stack.runsCodeOf id

/-- For all account codes and transactions: what the execution of the transaction changes in a
namespace is written while code of that account runs, if and only if no write comes from a request
that the transaction itself, or the runtime account in a migration, makes to the storage account. -/
theorem ownWrites_iff :
    OwnWrites host fuel stf tx sender block w ↔
      ∀ stack w₀ w₁ key entry, Action.write stack w₀ w₁ key entry ∈
        (Traced.executeTxPhase host fuel stf tx sender block).log w → ¬ stack.asksDirectly := by
  constructor
  · intro h stack w₀ w₁ key entry hmem hdirect
    obtain ⟨hlive, hwrites, -⟩ := sound_of_mem_executeTxPhase hmem
    have hstack := hwrites
    cases hwrites with
    | storage =>
      have hnot := (hlive.runsCodeOf_iff hstack).mp (h.writes _ _ _ _ _ _ hmem)
      exact absurd hdirect (by simp [hnot])
    | accountNumber => cases hdirect
    | create => cases hdirect
    | register => cases hdirect
    | migrate => cases hdirect
  · intro h
    have hwrites : ∀ stack w₀ w₁ id suffix entry,
        Action.write stack w₀ w₁ (Invoker.accountStorageKey id suffix) entry ∈
          (Traced.executeTxPhase host fuel stf tx sender block).log w → stack.runsCodeOf id := by
      intro stack w₀ w₁ id suffix entry hmem
      obtain ⟨hlive, hwrites, -⟩ := sound_of_mem_executeTxPhase hmem
      exact (hlive.runsCodeOf_iff hwrites).mpr (Bool.eq_false_iff.mpr (h _ _ _ _ _ hmem))
    refine ⟨hwrites, fun r w' hdone id suffix hchanged => ?_⟩
    obtain ⟨action, hmem, hkey⟩ := written_of_executeTxPhase hdone hchanged
    cases action with
    | begins => cases hkey
    | write stack w₀ w₁ key entry =>
      cases hkey
      exact ⟨stack, w₀, w₁, entry, hmem, hwrites _ _ _ _ _ _ hmem⟩

end

/-! ### A transaction to the storage account -/

namespace Eth

/-- A request to store a byte under the key of the nonce. -/
def overwriteNonce : InvokeRequest := ⟨"storage_set", 1, [1, 0, 0, 0, 0, 1, 0, 0, 0, 9]⟩

/-- A message whose recipient is the storage account. -/
def directWire : TxContextWireV1 where
  senderType := SenderType.custom
  payload := .custom []
  txHash := FixedBytes.repeatByte 32 9
  gasLimit := 90000
  nonce := 0
  chainId := some 1
  effectiveGasPrice := 0
  invokeRequest := overwriteNonce
  funds := []
  senderAccount := .fromU64 12
  recipientAccount := some storageAccountId
  senderKey := []
  authenticationPayload := []
  senderEthAddress := none
  recipientEthAddress := none

def bareStf : Stf (TxContext sampleCrypto) Unit where
  beginBlock _ _ := pure ()
  endBlock _ := pure ()
  validateTx _ _ := pure ()
  afterTxExecuted _ _ _ _ := pure ()
  storageGasConfig := ⟨10, 10, 10⟩

def directExecution (context : TxContext sampleCrypto) : Traced InvokeResponse :=
  Traced.executeTxPhase sampleHost 3 bareStf context (.fromU64 12) ⟨1, 0⟩

def overwritesNonce : Action → Bool
  | .begins _ _ => false
  | .write stack _ _ key _ =>
    decide (key = Invoker.accountStorageKey (.fromU64 12) [0]) && !stack.runsCodeOf (.fromU64 12)

theorem directWire_decodes :
    (TxContext.decode sampleCrypto (wireBytes directWire)).toOption.any (fun context =>
      decide (context.sender = .fromU64 12 ∧
        Exec.Ends (directExecution context).exec (fun r w' => r.toOption.isSome ∧
          w'.storage.lookup (Invoker.accountStorageKey (.fromU64 12) [0]) = .ok (some [9]))
          sampleWorld) &&
      ((directExecution context).log sampleWorld).any overwritesNonce) = true := by
  decide +kernel

/-- The transaction overwrites what its sender stores, and no account code runs. -/
theorem directWire_not_ownWrites :
    ∃ context, TxContext.decode sampleCrypto (wireBytes directWire) = .ok context ∧
      context.sender = .fromU64 12 ∧
      sampleWorld.storage.lookup (Invoker.accountStorageKey (.fromU64 12) [0]) = .ok none ∧
      (∃ r w', bareStf.executeTxPhase sampleHost 3 context (.fromU64 12) ⟨1, 0⟩ sampleWorld =
          .done (r, w') ∧ r.toOption.isSome ∧
        w'.storage.lookup (Invoker.accountStorageKey (.fromU64 12) [0]) = .ok (some [9])) ∧
      ¬ OwnWrites sampleHost 3 bareStf context (.fromU64 12) ⟨1, 0⟩ sampleWorld := by
  have hdecodes := directWire_decodes
  cases hdecode : TxContext.decode sampleCrypto (wireBytes directWire) with
  | error e => rw [hdecode] at hdecodes; cases hdecodes
  | ok context =>
    rw [hdecode] at hdecodes
    simp only [Except.toOption, Option.any_some, Bool.and_eq_true, List.any_eq_true] at hdecodes
    obtain ⟨hruns, action, hmem, haction⟩ := hdecodes
    obtain ⟨hsender, hends⟩ := of_decide_eq_true hruns
    refine ⟨context, rfl, hsender, by decide +kernel, ?_, fun h => ?_⟩
    · obtain ⟨r, w', hdone, hok, hlookup⟩ := hends.exists
      rw [directExecution, Traced.exec_executeTxPhase] at hdone
      exact ⟨r, w', hdone, hok, hlookup⟩
    · cases action with
      | begins => cases haction
      | write stack w₀ w₁ key entry =>
        simp only [overwritesNonce, Bool.and_eq_true, decide_eq_true_eq,
          Bool.not_eq_true'] at haction
        obtain ⟨rfl, hcode⟩ := haction
        have hruns := h.writes _ _ _ _ _ _ hmem
        rw [hcode] at hruns
        cases hruns

end Eth

end Evolve
