import Mathlib
import Evolve.Stf.Accounts
import Evolve.Stf.Atomicity
import Evolve.Stf.Nesting

/-! Storage isolation: which keys a call can change, and in whose frame. -/

namespace Evolve

open Machine Borsh Effects

/-! ### Namespaces -/

theorem accountStorageKey_inj_iff {a b : AccountId} {k k' : Bytes} :
    Invoker.accountStorageKey a k = Invoker.accountStorageKey b k' ↔ a = b ∧ k = k' := by
  constructor
  · intro h
    obtain ⟨hid, hkey⟩ := List.append_inj (List.cons.inj h).2 (by simp)
    exact ⟨AccountId.asBytes_inj.mp hid, hkey⟩
  · rintro ⟨rfl, rfl⟩
    rfl

/-- A write into the namespace of an account hands a request to the storage account in a frame of
that account. -/
theorem Stack.Writes.namespace {stack : Stack} {id : AccountId} {suffix : Bytes}
    (h : stack.Writes (Invoker.accountStorageKey id suffix)) :
    ∃ frame data funds paid rest,
      stack = .exec frame storageAccountId data funds paid :: rest ∧ frame.whoami = id ∧
      (data.function = InvokableMessage.functionIdentifier StorageSetRequest ∨
        data.function = InvokableMessage.functionIdentifier StorageRemoveRequest) := by
  generalize hkey : Invoker.accountStorageKey id suffix = key at h
  cases h with
  | storage function =>
    exact ⟨_, _, _, _, _, rfl, (accountStorageKey_inj_iff.mp hkey).1.symm, function⟩
  | accountNumber => exact absurd hkey (ExecutionState.accountStorageKey_ne_accountNumberKey _ _)
  | create =>
    exact absurd hkey (ExecutionState.accountStorageKey_ne_accountCodeIdentifierKey _ _ _)
  | register =>
    exact absurd hkey (ExecutionState.accountStorageKey_ne_accountCodeIdentifierKey _ _ _)
  | migrate =>
    exact absurd hkey (ExecutionState.accountStorageKey_ne_accountCodeIdentifierKey _ _ _)

def Activity.executes (account : AccountId) : Activity → Bool
  | .code .execute frame _ _ => frame.whoami == account
  | _ => false

/-- The action takes place while a frame of the account that the call entered is open. -/
def Action.inFrameOf (id : AccountId) (action : Action) : Bool :=
  action.stack.any fun a => a.opensFrame && a.frame.whoami == id

theorem Action.inFrameOf_iff {id : AccountId} {action : Action} :
    action.inFrameOf id = true ↔
      ∃ a ∈ action.stack, a.opensFrame = true ∧ a.frame.whoami = id := by
  simp [inFrameOf]

/-- The innermost frame is that of the call or one that it entered. -/
theorem Live.frame_whoami {root : Invoker} {op : EnvOp} {a : Activity} {stack : Stack}
    (h : Live (· = [.call root op]) (a :: stack)) :
    a.frame.whoami = root.whoami ∨
      ∃ b ∈ a :: stack, b.opensFrame = true ∧ b.frame.whoami = a.frame.whoami := by
  induction stack generalizing a with
  | nil =>
    cases h with
    | root hr =>
      cases hr
      exact .inl rfl
  | cons b stack ih =>
    rcases h.frame_eq (by simp) with hopens | hframe
    · exact .inr ⟨a, List.mem_cons_self .., hopens, rfl⟩
    · rw [hframe]
      refine (ih (h.tail (by simp))).imp_right ?_
      rintro ⟨c, hc, hopens, hwhoami⟩
      exact ⟨c, List.mem_cons_of_mem _ hc, hopens, hwhoami⟩

/-! ### Code identifiers and the account number -/

/-- The action is part of creating, registering or migrating an account. -/
def Action.byAccountHandler (action : Action) : Bool :=
  match action.stack with
  | .create _ _ :: _ => true
  | .register _ _ :: _ => true
  | .migrate _ _ :: _ => true
  | _ => false

def IsAccountRecord (key : Bytes) : Prop :=
  key = accountNumberKey ∨ ∃ id, key = accountCodeIdentifierKey id

theorem Stack.Writes.byAccountHandler {stack : Stack} {key : Bytes} {w w' : World}
    {entry : Option Message} (h : stack.Writes key) (hkey : IsAccountRecord key) :
    (Action.write stack w w' key entry).byAccountHandler = true := by
  cases h with
  | storage =>
    rcases hkey with hkey | ⟨id, hkey⟩
    · exact absurd hkey (ExecutionState.accountStorageKey_ne_accountNumberKey _ _)
    · exact absurd hkey (ExecutionState.accountStorageKey_ne_accountCodeIdentifierKey _ _ _)
  | accountNumber => rfl
  | create => rfl
  | register => rfl
  | migrate => rfl

/-! ### What a call changes -/

theorem sameExceptMetrics_queryRule :
    QueryRule fun w w' => w.storage.SameExceptMetrics w'.storage where
  refl w := .refl w.storage
  trans _ _ _ := .trans
  countRead _ := ⟨rfl, rfl, rfl, rfl, rfl⟩
  charge _ _ w := wp_charge (fun _ _ => .refl w.storage) fun _ _ => .refl w.storage

/-- For all account codes and every call, of whatever calls it leads to: the namespace of an account
changes only if the account is that of the calling frame or of a frame that the call entered, code
identifiers and the account number change only through the handlers that create, register and
migrate accounts, and a query changes neither the overlay nor the events nor the counter of unique
objects. -/
theorem call_effects (host : Host) (fuel : Nat) (frame : Invoker) (op : EnvOp) (w w' : World)
    (r : SdkResult op.Ans) (h : environment host fuel frame op w = .done (r, w')) :
    (∀ id, id ≠ frame.whoami →
      (∀ action ∈ (tracedEnvironment host fuel [] frame op).log w, ¬ action.inFrameOf id) →
      ∀ suffix, w'.storage.lookup (Invoker.accountStorageKey id suffix) =
        w.storage.lookup (Invoker.accountStorageKey id suffix)) ∧
    (∀ key, IsAccountRecord key → w'.storage.lookup key ≠ w.storage.lookup key →
      ∃ action ∈ (tracedEnvironment host fuel [] frame op).log w,
        action.key = some key ∧ action.byAccountHandler) ∧
    (∀ target data, op = .doQuery target data → w'.storage.overlay = w.storage.overlay ∧
      w'.storage.events = w.storage.events ∧
      w'.storage.uniqueObjects = w.storage.uniqueObjects) := by
  refine ⟨fun id hid hframes suffix => ?_, fun key hkey hchanged => ?_, ?_⟩
  · by_contra hchanged
    obtain ⟨action, haction, hkey⟩ := written_of_call h hchanged
    cases action with
    | begins => cases hkey
    | write stack w₀ w₁ key entry =>
      cases hkey
      obtain ⟨hlive, hwrites, -⟩ := sound_of_mem_call haction
      obtain ⟨inner, data, funds, paid, rest, rfl, hwhoami, -⟩ := hwrites.namespace
      rcases hlive.frame_whoami with hroot | ⟨a, ha, hopens, ha'⟩
      · exact hid (hwhoami.symm.trans hroot)
      · exact hframes _ haction (Action.inFrameOf_iff.mpr ⟨a, ha, hopens, ha'.trans hwhoami⟩)
  · obtain ⟨action, haction, hwritten⟩ := written_of_call h hchanged
    cases action with
    | begins => cases hwritten
    | write stack w₀ w₁ key' entry =>
      cases hwritten
      exact ⟨_, haction, rfl, (sound_of_mem_call haction).2.1.byAccountHandler hkey⟩
  · rintro target data rfl
    have hsame := Exec.wp_done
      (sameExceptMetrics_queryRule.keeps_doQuery host fuel frame target data w) h
    exact ⟨hsame.overlay, hsame.events, hsame.uniqueObjects⟩

/-- A call of the recording account changes no key of the refusing one. -/
theorem call_effects_recording :
    ∃ r w', environment sampleHost 3 (.newForBeginBlock ⟨1, 0⟩)
        (.doExec (.fromU64 10) (Invoker.initRequest []) []) sampleWorld = .done (.ok r, w') ∧
      w'.storage.lookup (Invoker.accountStorageKey (.fromU64 10) [7]) = .ok (some [1]) ∧
      ∀ suffix, w'.storage.lookup (Invoker.accountStorageKey (.fromU64 11) suffix) =
        sampleWorld.storage.lookup (Invoker.accountStorageKey (.fromU64 11) suffix) := by
  have hends : Exec.Ends (environment sampleHost 3 (.newForBeginBlock ⟨1, 0⟩)
      (.doExec (.fromU64 10) (Invoker.initRequest []) [])) (fun r w' => r.toOption.isSome ∧
        w'.storage.lookup (Invoker.accountStorageKey (.fromU64 10) [7]) = .ok (some [1]))
      sampleWorld := by decide +kernel
  obtain ⟨r, w', hrun, hr, hlookup⟩ := hends.exists
  cases r with
  | error e => cases hr
  | ok r =>
    refine ⟨r, w', hrun, hlookup, (call_effects _ _ _ _ _ _ _ hrun).1 _ (by decide) ?_⟩
    have hall : ((tracedEnvironment sampleHost 3 [] (.newForBeginBlock ⟨1, 0⟩)
        (.doExec (.fromU64 10) (Invoker.initRequest []) [])).log sampleWorld).all
          (fun action => !action.inFrameOf (.fromU64 11)) = true := by decide +kernel
    simpa using hall

end Evolve
