import Mathlib
import Evolve.Lib.Remains
import Evolve.Stf.Accounts

/-! What a failed transaction leaves behind.  A failed execution leaves nothing.  What the
resolution of the recipient, the post-transaction handler and an execution that the handler rejects
have changed stays, and so does what the phases before validation have changed, the registration of
the sender above all. -/

namespace Evolve

open Machine Borsh Effects

/-! ### Quiet computations -/

/-- Nothing that a block persists or reports has changed: neither the store nor the events. -/
structure World.Quiet (w w' : World) : Prop where
  store : w.SameStore w'
  events : w'.storage.events = w.storage.events

variable {w w' w₁ w₄ : World}

namespace World.Quiet

theorem refl (w : World) : Quiet w w := ⟨rfl, rfl⟩

theorem of_sameExceptMetrics (h : w.storage.SameExceptMetrics w'.storage) :
    Quiet w w' :=
  ⟨h.lookup, h.events⟩

end World.Quiet

/-- What the parts of a run change in the store or in the events, they change back. -/
structure World.LeaveNothing (w : World) (parts : List (World × World)) : Prop where
  store : ∀ key, Remains.Restored (fun w : World => w.storage.lookup key) w parts
  events : Remains.Restored (fun w : World => w.storage.events) w parts

variable {parts : List (World × World)}

theorem restoresStore_iff {gap : World → World → Prop} (hgap : ∀ a b, gap a b → a.SameStore b)
    (h : Remains.Linked gap w parts w') :
    (∀ key, Remains.Restored (fun w : World => w.storage.lookup key) w parts) ↔
      w.SameStore w' := by
  have hkey : ∀ key a b, gap a b → b.storage.lookup key = a.storage.lookup key :=
    fun key a b hab => congrFun (hgap a b hab) key
  refine (forall_congr' fun key => h.restored_iff (hkey key)).trans ?_
  exact funext_iff.symm

theorem leaveNothing_iff (h : Remains.Linked World.Quiet w parts w') :
    w.LeaveNothing parts ↔ w.Quiet w' := by
  have hstore := restoresStore_iff (fun _ _ hquiet => hquiet.store) h
  have hevents : Remains.Restored (fun w : World => w.storage.events) w parts ↔ _ :=
    h.restored_iff fun _ _ hquiet => hquiet.events
  constructor
  · intro hnothing
    exact ⟨hstore.mp hnothing.store, hevents.mp hnothing.events⟩
  · intro hquiet
    exact ⟨hstore.mpr hquiet.store, hevents.mpr hquiet.events⟩

variable {e : ErrorCode}

namespace Stf

variable {Tx Block : Type} [Transaction Tx]
variable (host : Host) (fuel : Nat) (stf : Stf Tx Block) (tx : Tx) (block : BlockContext)

def metered (w : World) : World := { w with gasCounter := stf.txGasCounter tx }

theorem txResult_apply (response : SdkResult InvokeResponse) (w : World) :
    txResult response w = .done (.ok ⟨w.storage.events, w.gasCounter.gasUsed, response⟩,
      { w with storage := { w.storage with events := [] } }) := rfl

theorem applyTx_of_rejected
    (h : admitTx host fuel stf tx block (stf.metered tx w) = .done (.error e, w₁)) :
    applyTx host fuel stf tx block w = txResult (.error e) w₁ := by
  show (Exec.attempt (admitTx host fuel stf tx block) >>= _) (stf.metered tx w) = _
  rw [Exec.bind_apply, Exec.attempt, h]

theorem applyTx_of_admitted {sender : AccountId}
    (h : admitTx host fuel stf tx block (stf.metered tx w) = .done (.ok sender, w₁)) :
    applyTx host fuel stf tx block w =
      (Exec.attempt (executeTxPhase host fuel stf tx sender block) >>= txResult) w₁ := by
  show (Exec.attempt (admitTx host fuel stf tx block) >>= _) (stf.metered tx w) = _
  rw [Exec.bind_apply, Exec.attempt, h]

/-! ### After validation -/

/-- The parts of a failed execution phase that nothing undoes: the resolution of the recipient, the
post-transaction handler, and the execution if it succeeds and the handler rejects it. -/
inductive FailedParts (sender : AccountId) (w₁ : World) : List (World × World) → Prop
  | unresolved {e : ErrorCode} {w₂ : World}
      (resolves : runIn host fuel (executionFrame tx sender block)
        (Transaction.resolveRecipientAccount tx) w₁ = .done (.error e, w₂)) :
      FailedParts sender w₁ [(w₁, w₂)]
  | failed {recipient : AccountId} {w₂ w₃ w₄ : World} {e : ErrorCode} {handled : SdkResult Unit}
      (resolves : runIn host fuel (executionFrame tx sender block)
        (Transaction.resolveRecipientAccount tx) w₁ = .done (.ok recipient, w₂))
      (executes : environment host fuel (executionFrame tx sender block)
        (.doExec recipient (Transaction.request tx) (Transaction.funds tx)) w₂ =
          .done (.error e, w₃))
      (handles : runIn host fuel (executionFrame tx sender block)
        (stf.afterTxExecuted tx w₃.gasCounter.gasUsed (.error e)) w₃ = .done (handled, w₄)) :
      FailedParts sender w₁ [(w₁, w₂), (w₃, w₄)]
  | rejected {recipient : AccountId} {w₂ w₃ w₄ : World} {response : InvokeResponse}
      {e : ErrorCode}
      (resolves : runIn host fuel (executionFrame tx sender block)
        (Transaction.resolveRecipientAccount tx) w₁ = .done (.ok recipient, w₂))
      (executes : environment host fuel (executionFrame tx sender block)
        (.doExec recipient (Transaction.request tx) (Transaction.funds tx)) w₂ =
          .done (.ok response, w₃))
      (handles : runIn host fuel (executionFrame tx sender block)
        (stf.afterTxExecuted tx w₃.gasCounter.gasUsed (.ok response)) w₃ =
          .done (.error e, w₄)) :
      FailedParts sender w₁ [(w₁, w₂), (w₂, w₃), (w₃, w₄)]

variable {host fuel stf tx block} {sender : AccountId}

/-- How an execution phase ends: where the recipient cannot be resolved, or with what the handler
makes of the result of the execution. -/
theorem executeTxPhase_done {response : SdkResult InvokeResponse}
    (h : executeTxPhase host fuel stf tx sender block w₁ = .done (response, w₄)) :
    (∃ e, runIn host fuel (executionFrame tx sender block)
        (Transaction.resolveRecipientAccount tx) w₁ = .done (.error e, w₄) ∧
      response = .error e) ∨
    ∃ recipient w₂ executed w₃ handled,
      runIn host fuel (executionFrame tx sender block)
        (Transaction.resolveRecipientAccount tx) w₁ = .done (.ok recipient, w₂) ∧
      environment host fuel (executionFrame tx sender block)
        (.doExec recipient (Transaction.request tx) (Transaction.funds tx)) w₂ =
          .done (executed, w₃) ∧
      runIn host fuel (executionFrame tx sender block)
        (stf.afterTxExecuted tx w₃.gasCounter.gasUsed executed) w₃ = .done (handled, w₄) ∧
      response = handled.bind fun _ => executed := by
  rcases Exec.bind_done.mp h with ⟨recipient, w₂, hrecipient, h⟩ | ⟨e, hrecipient, rfl⟩
  · rcases Exec.bind_done.mp h with ⟨_, w₃, hexec, h⟩ | ⟨e, hexec, -⟩
    · obtain ⟨_, hexec, ⟨⟩⟩ := Exec.attempt_done.mp hexec
      rcases Exec.bind_done.mp h with ⟨gasUsed, _, ⟨⟩, h⟩ | ⟨e, ⟨⟩, -⟩
      rcases Exec.bind_done.mp h with ⟨_, w₄', hpost, h⟩ | ⟨e, hpost, rfl⟩
      · cases h
        exact .inr ⟨recipient, w₂, _, w₃, .ok _, hrecipient, hexec, hpost, rfl⟩
      · exact .inr ⟨recipient, w₂, _, w₃, .error e, hrecipient, hexec, hpost, rfl⟩
    · obtain ⟨_, _, ⟨⟩⟩ := Exec.attempt_done.mp hexec
  · exact .inl ⟨e, hrecipient, rfl⟩

/-- A phase with such parts has failed, and they lead from its start to its end: a failed execution
is a gap. -/
theorem FailedParts.linked {response : SdkResult InvokeResponse}
    (hparts : FailedParts host fuel stf tx block sender w₁ parts)
    (h : executeTxPhase host fuel stf tx sender block w₁ = .done (response, w₄)) :
    (∃ e, response = .error e) ∧ Remains.Linked World.Quiet w₁ parts w₄ := by
  rcases executeTxPhase_done h with ⟨e, hresolves, rfl⟩ |
    ⟨recipient, w₂, executed, w₃, handled, hresolves, hexecutes, hhandles, rfl⟩
  · cases hparts with
    | unresolved resolves =>
      cases hresolves.symm.trans resolves
      exact ⟨⟨e, rfl⟩, .refl _, .refl _⟩
    | failed resolves | rejected resolves => cases hresolves.symm.trans resolves
  · cases hparts with
    | unresolved resolves => cases hresolves.symm.trans resolves
    | @failed _ _ _ _ e handled' resolves executes handles =>
      cases hresolves.symm.trans resolves
      cases hexecutes.symm.trans executes
      cases hhandles.symm.trans handles
      have hundone : w₂.Quiet w₃ := .of_sameExceptMetrics
        (Exec.wp_done (wp_doExec_sameExceptMetrics host fuel _ _ _ _ w₂) hexecutes e rfl)
      refine ⟨?_, .refl _, hundone, .refl _⟩
      cases handled with
      | error e' => exact ⟨e', rfl⟩
      | ok _ => exact ⟨e, rfl⟩
    | @rejected _ _ _ _ _ e resolves executes handles =>
      cases hresolves.symm.trans resolves
      cases hexecutes.symm.trans executes
      cases hhandles.symm.trans handles
      exact ⟨⟨e, rfl⟩, .refl _, .refl _, .refl _, .refl _⟩

theorem exists_failedParts
    (h : executeTxPhase host fuel stf tx sender block w₁ = .done (.error e, w₄)) :
    ∃ parts, FailedParts host fuel stf tx block sender w₁ parts := by
  rcases executeTxPhase_done h with ⟨_, hresolves, -⟩ |
    ⟨recipient, w₂, executed, w₃, handled, hresolves, hexecutes, hhandles, hresponse⟩
  · exact ⟨_, .unresolved hresolves⟩
  · cases executed with
    | error _ => exact ⟨_, .failed hresolves hexecutes hhandles⟩
    | ok response =>
      -- The execution succeeded, so the failure is that of the handler.
      cases handled with
      | ok _ => cases hresponse
      | error _ => exact ⟨_, .rejected hresolves hexecutes hhandles⟩

/-- A validated transaction that is reported as failed leaves the store as it was after validation,
and reports no event of its execution phase, if and only if what this run changes in the resolution
of the recipient, in the handler and in an execution that the handler rejects is changed back. -/
theorem applyTx_failed_quiet_iff {w w₁ w' : World} {result : TxResult}
    (hadmitted : admitTx host fuel stf tx block (stf.metered tx w) = .done (.ok sender, w₁))
    (hrun : applyTx host fuel stf tx block w = .done (.ok result, w')) :
    ((∃ e, result.response = .error e) →
      w'.storage.lookup = w₁.storage.lookup ∧ result.events = w₁.storage.events) ↔
      ∀ parts, FailedParts host fuel stf tx block sender w₁ parts → w₁.LeaveNothing parts := by
  rw [applyTx_of_admitted host fuel stf tx block hadmitted] at hrun
  rcases Exec.bind_done.mp hrun with ⟨response, w₄, hphase, hresult⟩ | ⟨e, hphase, ⟨⟩⟩
  obtain ⟨_, hphase, ⟨⟩⟩ := Exec.attempt_done.mp hphase
  cases hresult
  constructor
  · intro hquiet parts hparts
    obtain ⟨hfailed, hlinked⟩ := hparts.linked hphase
    exact (leaveNothing_iff hlinked).mpr ⟨(hquiet hfailed).1, (hquiet hfailed).2⟩
  · rintro hnothing ⟨e, rfl⟩
    obtain ⟨parts, hparts⟩ := exists_failedParts hphase
    have hquiet := (leaveNothing_iff (hparts.linked hphase).2).mp (hnothing parts hparts)
    exact ⟨hquiet.store, hquiet.events⟩

def sampleTx (recipient : AccountId) : TestTx :=
  ⟨.fromU64 200, recipient, Invoker.initRequest [], 1000, [], none⟩

/-- A transaction with two transfers, of which the second fails. -/
def payingTx : TestTx :=
  { sampleTx (.fromU64 10) with funds := [⟨.fromU64 10, 5⟩, ⟨.fromU64 11, 5⟩] }

theorem payingTx_admitted :
    Exec.Ends (admitTx sampleHost 3 testStf payingTx ⟨1, 0⟩) (fun r _ => r = .ok (.fromU64 200))
      (testStf.metered payingTx sampleWorld) := by
  decide +kernel

theorem payingTx_ends :
    Exec.Ends (applyTx sampleHost 3 testStf payingTx ⟨1, 0⟩)
      (fun r w' => r.toOption.map TxResult.response = some (.error errUnauthorized) ∧
        w'.storage.metrics.storageWrites = 1 ∧ w'.storage.metrics.eventsEmitted = 1)
      sampleWorld := by
  decide +kernel

/-- The first transfer writes and emits an event, the second fails, and the transaction with it. -/
theorem applyTx_failed_quiet_iff_payingTx :
    ∃ w₁ result w',
      admitTx sampleHost 3 testStf payingTx ⟨1, 0⟩ (testStf.metered payingTx sampleWorld) =
        .done (.ok (.fromU64 200), w₁) ∧
      applyTx sampleHost 3 testStf payingTx ⟨1, 0⟩ sampleWorld = .done (.ok result, w') ∧
      result.response = .error errUnauthorized ∧ w'.storage.metrics.storageWrites = 1 ∧
      w'.storage.lookup = w₁.storage.lookup ∧ result.events = w₁.storage.events := by
  obtain ⟨_, w₁, hadmitted, rfl⟩ := payingTx_admitted.exists
  obtain ⟨r, w', happly, hresponse, hwrites, -⟩ := payingTx_ends.exists
  cases r with
  | error e => cases hresponse
  | ok result =>
    replace hresponse := Option.some.inj hresponse
    refine ⟨w₁, result, w', hadmitted, happly, hresponse, hwrites, ?_⟩
    refine (applyTx_failed_quiet_iff hadmitted happly).mpr (fun parts hparts => ?_) ⟨_, hresponse⟩
    cases hparts with
    | unresolved resolves => cases resolves
    | failed resolves executes handles =>
      cases resolves
      cases handles
      constructor <;> simp [Remains.Restored, Remains.after]
    | rejected resolves executes handles => cases handles

def rejectingStf : Stf TestTx TestBlock :=
  { testStf with afterTxExecuted := fun _ _ response _ =>
      match response with
      | .ok _ => Prog.throw (.new 999)
      | .error _ => pure () }

def recordedKey : Bytes := Invoker.accountStorageKey (.fromU64 10) [7]

theorem rejectingStf_ends :
    Exec.Ends (admitTx sampleHost 3 rejectingStf (sampleTx (.fromU64 10)) ⟨1, 0⟩)
      (fun r w₁ => r = .ok (.fromU64 200) ∧ w₁.storage.lookup recordedKey = .ok none ∧
        w₁.storage.events = []) (rejectingStf.metered (sampleTx (.fromU64 10)) sampleWorld) ∧
    Exec.Ends (applyTx sampleHost 3 rejectingStf (sampleTx (.fromU64 10)) ⟨1, 0⟩)
      (fun r w' => r = .ok ⟨[⟨.fromU64 10, "recorded", []⟩], 370, .error (.new 999)⟩ ∧
        w'.storage.lookup recordedKey = .ok (some [1])) sampleWorld := by
  decide +kernel

/-- A successful execution that the handler rejects is reported as failed, with its event, and its
write stays. -/
theorem applyTx_rejected_execution_persists :
    ∃ w₁ result w',
      admitTx sampleHost 3 rejectingStf (sampleTx (.fromU64 10)) ⟨1, 0⟩
        (rejectingStf.metered (sampleTx (.fromU64 10)) sampleWorld) =
          .done (.ok (.fromU64 200), w₁) ∧
      applyTx sampleHost 3 rejectingStf (sampleTx (.fromU64 10)) ⟨1, 0⟩ sampleWorld =
        .done (.ok result, w') ∧
      result.response = .error (.new 999) ∧
      w₁.storage.lookup recordedKey = .ok none ∧ w'.storage.lookup recordedKey = .ok (some [1]) ∧
      w₁.storage.events = [] ∧ result.events = [⟨.fromU64 10, "recorded", []⟩] := by
  obtain ⟨_, w₁, hadmitted, rfl, hbefore, hevents⟩ := rejectingStf_ends.1.exists
  obtain ⟨_, w', happly, rfl, hafter⟩ := rejectingStf_ends.2.exists
  exact ⟨w₁, _, w', hadmitted, happly, rfl, hbefore, hafter, hevents, rfl⟩

end Stf

/-! ### Before validation -/

/-- Registration writes the account's code identifier: the account has none, the identifier is
valid, and there is gas and room for the write. -/
def Invoker.Claims (host : Host) (w : World) (account : AccountId) (codeId : String) : Prop :=
  w.storage.codeIdentifier account = .ok none ∧
    validateCodeId host.isAlphanumeric codeId = .ok () ∧
    ∃ message gasCounter storage, Message.new codeId = .ok message ∧
      w.gasCounter.consumeSetGas (accountCodeIdentifierKey account) message = .ok gasCounter ∧
      w.storage.countRead.set (accountCodeIdentifierKey account) message = .ok storage

variable {account : AccountId}

theorem wp_registerAccountAtId_sameStore {host : Host} {nested : Environment} {invoker : Invoker}
    {codeId : String} {initMsg : Message} (hclaims : ¬ Invoker.Claims host w account codeId) :
    Exec.wp (Invoker.registerAccountAtId host nested invoker account codeId initMsg)
      (fun _ w' => w.SameStore w') w := by
  refine Exec.wp_bind.mpr (wp_getAccountCodeIdentifierForAccount.mpr ?_)
  cases hcode : w.storage.codeIdentifier account with
  | error e => exact rfl
  | ok found =>
    cases found with
    | some _ => exact rfl
    | none =>
      refine Exec.wp_bind.mpr ?_
      cases hvalid : validateCodeId host.isAlphanumeric codeId with
      | error e => exact rfl
      | ok _ =>
        refine Exec.wp_bind.mpr (wp_claimAccount ?_ fun _ _ => rfl)
        intro message c s hmessage hc hs
        exact absurd ⟨hcode, hvalid, message, c, s, hmessage, hc, hs⟩ hclaims

theorem claimAccount_apply {codeId : String} {message : Message} {c : GasCounter}
    {s : ExecutionState} (hmessage : Message.new codeId = .ok message)
    (hc : w.gasCounter.consumeSetGas (accountCodeIdentifierKey account) message = .ok c)
    (hs : w.storage.set (accountCodeIdentifierKey account) message = .ok s) :
    Invoker.claimAccount account codeId w =
      .done (.ok (), ⟨s, c, .register w.storage account :: w.history⟩) := by
  simp only [Invoker.claimAccount, Exec.bind_apply, Exec.read, Exec.ofExcept, hmessage, Run.charge,
    hc, Run.set, Run.update, hs, Run.note, Exec.modify]

theorem wp_registerAccountAtId_hasCode {host : Host} {nested : Environment} {invoker : Invoker}
    (hnested : ∀ invoker op, Exec.Keeps (fun w w' : World =>
      ∀ account, w.storage.HasCode account → w'.storage.HasCode account) (nested invoker op))
    {codeId : String} {initMsg : Message} (hclaims : Invoker.Claims host w account codeId) :
    Exec.wp (Invoker.registerAccountAtId host nested invoker account codeId initMsg)
      (fun _ w' => w'.storage.HasCode account) w := by
  obtain ⟨hcode, hvalid, message, c, s, hmessage, hc, hs⟩ := hclaims
  refine Exec.wp_bind.mpr (wp_getAccountCodeIdentifierForAccount.mpr ?_)
  rw [hcode]
  refine Exec.wp_bind.mpr ?_
  rw [hvalid]
  refine Exec.wp_bind.mpr ?_
  unfold Exec.wp
  rw [claimAccount_apply (w := w.countRead) hmessage hc hs]
  have rule := hasCode_stepRule.callRule host
  refine Exec.wp_mono (fun _ _ h => h account (ExecutionState.hasCode_of_set hs))
    (rule.keeps_bind (rule.keeps_withCode host codeId) (fun code => ?_) _)
  exact rule.keeps_bind (rule.keeps_run hnested _ _) fun _ => rule.keeps_pure _

namespace Stf

variable {Tx Block : Type} [Transaction Tx]
variable (host : Host) (fuel : Nat) (stf : Stf Tx Block) (tx : Tx) (block : BlockContext)

/-- From `w`, the sender is resolved to an account that the bootstrap of the transaction gives its
code identifier. -/
def RegistersSender (w : World) : Prop :=
  ∃ sender w₀ bootstrap,
    resolveSenderPhase host fuel tx block (stf.metered tx w) = .done (.ok sender, w₀) ∧
    Transaction.senderBootstrap tx = some bootstrap ∧
    Invoker.Claims host w₀ sender bootstrap.accountCodeId

/-- The parts of the bootstrap of the sender without the registration: the hook after it. -/
inductive BootstrapParts (sender : AccountId) (w₀ : World) : List (World × World) → Prop
  | unhooked
      (unregistered : ∀ bootstrap w₁, Transaction.senderBootstrap tx = some bootstrap →
        Invoker.registerAccountAtId host (environment host fuel) (.newForBeginBlock block) sender
          bootstrap.accountCodeId bootstrap.initMessage w₀ ≠ .done (.ok (), w₁)) :
      BootstrapParts sender w₀ []
  | hooked {bootstrap : SenderBootstrap} {r : SdkResult Unit} {w₁ w₂ : World}
      (bootstraps : Transaction.senderBootstrap tx = some bootstrap)
      (registers : Invoker.registerAccountAtId host (environment host fuel)
        (.newForBeginBlock block) sender bootstrap.accountCodeId bootstrap.initMessage w₀ =
          .done (.ok (), w₁))
      (hook : runIn host fuel (.newForBeginBlock block)
        (Transaction.afterSenderBootstrap tx sender) w₁ = .done (r, w₂)) :
      BootstrapParts sender w₀ [(w₁, w₂)]

/-- The parts before the failure of a transaction that is not admitted, without the registration of
the sender: the resolution of the sender, the hook after the bootstrap, and the validator. -/
inductive RejectedParts (w : World) : List (World × World) → Prop
  | unresolved {e : ErrorCode} {w₀ : World}
      (resolves : resolveSenderPhase host fuel tx block (stf.metered tx w) =
        .done (.error e, w₀)) :
      RejectedParts w [(w, w₀)]
  | unbootstrapped {sender : AccountId} {parts : List (World × World)} {e : ErrorCode}
      {w₀ w₂ : World}
      (resolves : resolveSenderPhase host fuel tx block (stf.metered tx w) =
        .done (.ok sender, w₀))
      (bootstraps : bootstrapSenderPhase host fuel tx sender block w₀ = .done (.error e, w₂))
      (hooks : BootstrapParts host fuel tx block sender w₀ parts) :
      RejectedParts w ((w, w₀) :: parts)
  | invalid {sender : AccountId} {parts : List (World × World)} {e : ErrorCode} {w₀ w₂ w₃ : World}
      (resolves : resolveSenderPhase host fuel tx block (stf.metered tx w) =
        .done (.ok sender, w₀))
      (bootstraps : bootstrapSenderPhase host fuel tx sender block w₀ = .done (.ok (), w₂))
      (hooks : BootstrapParts host fuel tx block sender w₀ parts)
      (validates : validateTxPhase host fuel stf tx block w₂ = .done (.error e, w₃)) :
      RejectedParts w ((w, w₀) :: (parts ++ [(w₂, w₃)]))

variable {host fuel stf tx block}

theorem wp_bootstrapSenderPhase_hasCode {sender : AccountId} {bootstrap : SenderBootstrap}
    (hbootstrap : Transaction.senderBootstrap tx = some bootstrap)
    (hclaims : Invoker.Claims host w sender bootstrap.accountCodeId) :
    Exec.wp (bootstrapSenderPhase host fuel tx sender block)
      (fun _ w' => w'.storage.HasCode sender) w := by
  have rule := hasCode_stepRule.callRule host
  unfold bootstrapSenderPhase
  rw [hbootstrap]
  refine Exec.wp_bind.mpr (Exec.wp_mono ?_
    (wp_registerAccountAtId_hasCode (rule.keeps_call fuel) hclaims))
  intro r w₁ h₁
  cases r with
  | error e => exact h₁
  | ok _ =>
    refine Exec.wp_mono (fun _ _ h => h sender h₁)
      (rule.keeps_bind (keeps_runIn fuel rule _ _) (fun _ => ?_) w₁)
    exact rule.keeps_bind (fun _ _ => id) fun _ => rule.keeps_pure _

theorem RegistersSender.not_sameStore {r : SdkResult AccountId}
    (hregisters : RegistersSender host fuel stf tx block w)
    (h : admitTx host fuel stf tx block (stf.metered tx w) = .done (r, w₁)) : ¬ w.SameStore w₁ := by
  intro hsame
  obtain ⟨sender, w₀, bootstrap, hsender, hbootstrap, hclaims⟩ := hregisters
  have rule := hasCode_stepRule.callRule host
  rcases Exec.bind_done.mp h with ⟨_, _, hsender', h⟩ | ⟨_, hsender', -⟩
  · cases hsender.symm.trans hsender'
    have hcode : w₁.storage.HasCode sender := by
      refine Exec.wp_done (Q := fun _ w' => w'.storage.HasCode sender) (Exec.wp_bind.mpr
        (Exec.wp_mono ?_ (wp_bootstrapSenderPhase_hasCode hbootstrap hclaims))) h
      intro r w₂ h₂
      cases r with
      | error e => exact h₂
      | ok _ =>
        exact Exec.wp_mono (fun _ _ h => h sender h₂)
          (rule.keeps_bind (keeps_runIn fuel rule _ _) (fun _ => rule.keeps_pure _) w₂)
    refine ExecutionState.not_hasCode_of_codeIdentifier hclaims.1 ?_
    -- No code identifier is ever removed, so one of the sender would be there after the resolution.
    refine Exec.wp_done (keeps_runIn fuel rule _ _ (stf.metered tx w)) hsender sender ?_
    exact (ExecutionState.hasCode_congr hsame sender).mp hcode
  · cases hsender.symm.trans hsender'

theorem BootstrapParts.linked {sender : AccountId} {w₀ w₂ : World} {r : SdkResult Unit}
    (hparts : BootstrapParts host fuel tx block sender w₀ parts)
    (hclaims : ∀ bootstrap, Transaction.senderBootstrap tx = some bootstrap →
      ¬ Invoker.Claims host w₀ sender bootstrap.accountCodeId)
    (h : bootstrapSenderPhase host fuel tx sender block w₀ = .done (r, w₂)) :
    Remains.Linked World.SameStore w₀ parts w₂ := by
  unfold bootstrapSenderPhase at h
  cases hparts with
  | unhooked unregistered =>
    cases hbootstrap : Transaction.senderBootstrap tx with
    | none =>
      rw [hbootstrap] at h
      cases h
      exact rfl
    | some bootstrap =>
      rw [hbootstrap] at h
      rcases Exec.bind_done.mp h with ⟨_, _, hregisters, -⟩ | ⟨_, hregisters, -⟩
      · exact absurd hregisters (unregistered _ _ hbootstrap)
      · exact Exec.wp_done (wp_registerAccountAtId_sameStore (hclaims _ hbootstrap)) hregisters
  | @hooked bootstrap r _ _ bootstraps registers hook =>
    simp only [Exec.bind_apply, bootstraps, registers, hook] at h
    refine ⟨Exec.wp_done (wp_registerAccountAtId_sameStore (hclaims _ bootstraps)) registers, ?_⟩
    cases r with
    | error e =>
      cases h
      exact rfl
    | ok _ =>
      cases h
      exact rfl

theorem RejectedParts.linked (hparts : RejectedParts host fuel stf tx block w parts)
    (hregisters : ¬ RegistersSender host fuel stf tx block w)
    (h : admitTx host fuel stf tx block (stf.metered tx w) = .done (.error e, w')) :
    Remains.Linked World.SameStore w parts w' := by
  unfold admitTx at h
  cases hparts with
  | unresolved resolves =>
    simp only [Exec.bind_apply, resolves] at h
    cases h
    exact ⟨rfl, rfl⟩
  | unbootstrapped resolves bootstraps hooks =>
    simp only [Exec.bind_apply, resolves, bootstraps] at h
    cases h
    exact ⟨rfl, hooks.linked (fun _ hbootstrap hclaims =>
      hregisters ⟨_, _, _, resolves, hbootstrap, hclaims⟩) bootstraps⟩
  | invalid resolves bootstraps hooks validates =>
    simp only [Exec.bind_apply, resolves, bootstraps, validates] at h
    cases h
    exact ⟨rfl, (hooks.linked (fun _ hbootstrap hclaims =>
      hregisters ⟨_, _, _, resolves, hbootstrap, hclaims⟩) bootstraps).concat rfl⟩

theorem exists_bootstrapParts {sender : AccountId} {w₀ w₂ : World} {r : SdkResult Unit}
    (h : bootstrapSenderPhase host fuel tx sender block w₀ = .done (r, w₂)) :
    ∃ parts, BootstrapParts host fuel tx block sender w₀ parts := by
  by_contra hnone
  refine hnone ⟨_, .unhooked fun bootstrap w₁ hbootstrap hregisters => ?_⟩
  unfold bootstrapSenderPhase at h
  simp only [hbootstrap] at h
  rcases Exec.bind_done.mp h with ⟨_, _, hregisters', h⟩ | ⟨_, hregisters', -⟩
  · rcases Exec.bind_done.mp h with ⟨_, _, hhook, -⟩ | ⟨_, hhook, -⟩
    · exact hnone ⟨_, .hooked hbootstrap hregisters' hhook⟩
    · exact hnone ⟨_, .hooked hbootstrap hregisters' hhook⟩
  · cases hregisters.symm.trans hregisters'

theorem exists_rejectedParts
    (h : admitTx host fuel stf tx block (stf.metered tx w) = .done (.error e, w')) :
    ∃ parts, RejectedParts host fuel stf tx block w parts := by
  rcases Exec.bind_done.mp h with ⟨sender, w₀, hresolves, h⟩ | ⟨_, hresolves, -⟩
  · rcases Exec.bind_done.mp h with ⟨_, w₂, hbootstraps, h⟩ | ⟨_, hbootstraps, -⟩
    · obtain ⟨parts, hooks⟩ := exists_bootstrapParts hbootstraps
      rcases Exec.bind_done.mp h with ⟨_, _, hvalidates, ⟨⟩⟩ | ⟨_, hvalidates, -⟩
      exact ⟨_, .invalid hresolves hbootstraps hooks hvalidates⟩
    · obtain ⟨parts, hooks⟩ := exists_bootstrapParts hbootstraps
      exact ⟨_, .unbootstrapped hresolves hbootstraps hooks⟩
  · exact ⟨_, .unresolved hresolves⟩

/-- A transaction that fails before or in validation leaves the store as it was before if and only
if this run does not register the sender, and what the resolution of the sender, the hook after the
bootstrap and the validator change, up to the failure, is changed back. -/
theorem applyTx_rejected_sameStore_iff {w w₁ w' : World} {e : ErrorCode} {result : TxResult}
    (hadmitted : admitTx host fuel stf tx block (stf.metered tx w) = .done (.error e, w₁))
    (hrun : applyTx host fuel stf tx block w = .done (.ok result, w')) :
    w'.storage.lookup = w.storage.lookup ↔ ¬ RegistersSender host fuel stf tx block w ∧
      ∀ parts, RejectedParts host fuel stf tx block w parts → ∀ key,
        Remains.Restored (fun w : World => w.storage.lookup key) w parts := by
  rw [applyTx_of_rejected host fuel stf tx block hadmitted, txResult_apply] at hrun
  cases hrun
  change w.SameStore w₁ ↔ _
  constructor
  · intro hsame
    have hregisters : ¬ RegistersSender host fuel stf tx block w :=
      fun hregisters => hregisters.not_sameStore hadmitted hsame
    refine ⟨hregisters, fun parts hparts => ?_⟩
    exact (restoresStore_iff (fun _ _ h => h) (hparts.linked hregisters hadmitted)).mpr hsame
  · rintro ⟨hregisters, hrestored⟩
    obtain ⟨parts, hparts⟩ := exists_rejectedParts hadmitted
    exact (restoresStore_iff (fun _ _ h => h) (hparts.linked hregisters hadmitted)).mp
      (hrestored parts hparts)

/-- A validator that makes a call of which the first transfer writes and the second fails. -/
def strictValidator : Program Unit :=
  .call (.doExec (.fromU64 10) (Invoker.initRequest []) [⟨.fromU64 10, 5⟩, ⟨.fromU64 11, 5⟩])
    fun r => Prog.ofExcept (r.map fun _ => ())

def strictStf : Stf TestTx TestBlock := { testStf with validateTx := fun _ _ => strictValidator }

/-- A transaction from account 10, which has code already. -/
def knownTx : TestTx :=
  { sampleTx (.fromU64 10) with sender := .fromU64 10, bootstrap := some ⟨"idle", []⟩ }

theorem knownTx_admits :
    Exec.Ends (admitTx sampleHost 3 strictStf knownTx ⟨1, 0⟩)
      (fun r w₁ => r = .error errUnauthorized ∧ w₁.storage.metrics.storageWrites = 1)
      (strictStf.metered knownTx sampleWorld) := by
  decide +kernel

theorem strictStf_sameStore
    (h : validateTxPhase sampleHost 3 strictStf knownTx ⟨1, 0⟩ w = .done (.error e, w')) :
    w.SameStore w' := by
  replace h : (strictValidator.run (environment sampleHost 3 _)) w = .done (.error e, w') := h
  rcases Exec.bind_done.mp h with ⟨r, w₁, hcall, hresult⟩ | ⟨_, hcall, -⟩
  · obtain ⟨_, hcall, ⟨⟩⟩ := Exec.attempt_done.mp hcall
    cases r with
    | ok _ => cases hresult
    | error e =>
      cases hresult
      exact (Exec.wp_done (wp_doExec_sameExceptMetrics _ _ _ _ _ _ w) hcall e rfl).lookup
  · obtain ⟨_, _, ⟨⟩⟩ := Exec.attempt_done.mp hcall

/-- The sender is there already, and what the validator has written is undone. -/
theorem applyTx_rejected_sameStore_iff_knownTx :
    ∃ result w', applyTx sampleHost 3 strictStf knownTx ⟨1, 0⟩ sampleWorld =
        .done (.ok result, w') ∧
      result.response = .error errUnauthorized ∧ w'.storage.metrics.storageWrites = 1 ∧
      w'.storage.lookup = sampleWorld.storage.lookup := by
  obtain ⟨_, w₁, hadmitted, rfl, hwrites⟩ := knownTx_admits.exists
  have hrun := applyTx_of_rejected sampleHost 3 strictStf knownTx ⟨1, 0⟩ hadmitted
  refine ⟨_, _, hrun, rfl, hwrites, ?_⟩
  refine (applyTx_rejected_sameStore_iff hadmitted hrun).mpr ⟨?_, fun parts hparts key => ?_⟩
  · rintro ⟨_, _, _, ⟨⟩, ⟨⟩, hclaims⟩
    exact absurd hclaims.1 (by decide +kernel)
  · -- No part changes anything: the hook does nothing, and the validator's call is undone.
    cases hparts with
    | unresolved resolves => cases resolves
    | unbootstrapped resolves _ hooks =>
      cases resolves
      cases hooks with
      | unhooked => simp [Remains.Restored, Remains.after, metered]
      | hooked _ _ hook =>
        cases hook
        simp [Remains.Restored, Remains.after, metered]
    | invalid resolves _ hooks validates =>
      have hsame := congrFun (strictStf_sameStore validates) key
      cases resolves
      cases hooks with
      | unhooked => simp [Remains.Restored, Remains.after, hsame, metered]
      | hooked _ _ hook =>
        cases hook
        simp [Remains.Restored, Remains.after, hsame, metered]

/-- A transaction from account 300, whose bootstrap gives it the refusing code. -/
def bootstrapTx : TestTx :=
  { sampleTx (.fromU64 10) with
    sender := .fromU64 300
    bootstrap := some ⟨"refusing", []⟩ }

theorem bootstrapTx_ends :
    Exec.Ends (applyTx sampleHost 3 testStf bootstrapTx ⟨1, 0⟩)
      (fun r w' => r = .ok ⟨[], 470, .error errUnauthorized⟩ ∧
        w'.storage.codeIdentifier (.fromU64 300) = .ok (some "refusing")) sampleWorld := by
  decide +kernel

theorem bootstrapTx_again_ends :
    Exec.Ends (applyTx sampleHost 3 testStf bootstrapTx ⟨1, 0⟩ >>= fun _ =>
        applyTx sampleHost 3 testStf bootstrapTx ⟨1, 0⟩)
      (fun r _ => r = .ok ⟨[⟨.fromU64 10, "recorded", []⟩], 370, .ok ⟨[]⟩⟩) sampleWorld := by
  decide +kernel

/-- The init of a new sender account fails and with it the transaction, but the account stays
registered: the next transaction of the same sender succeeds, without an init. -/
theorem applyTx_failed_bootstrap_stays_registered :
    ∃ result w' result' w'',
      sampleWorld.storage.codeIdentifier (.fromU64 300) = .ok none ∧
      applyTx sampleHost 3 testStf bootstrapTx ⟨1, 0⟩ sampleWorld = .done (.ok result, w') ∧
      result.response = .error errUnauthorized ∧
      w'.storage.codeIdentifier (.fromU64 300) = .ok (some "refusing") ∧
      applyTx sampleHost 3 testStf bootstrapTx ⟨1, 0⟩ w' = .done (.ok result', w'') ∧
      result'.response = .ok ⟨[]⟩ := by
  obtain ⟨_, w', hfirst, rfl, hcode⟩ := bootstrapTx_ends.exists
  obtain ⟨_, w'', hboth, rfl⟩ := bootstrapTx_again_ends.exists
  rcases Exec.bind_done.mp hboth with ⟨_, w₁, hfirst', hsecond⟩ | ⟨_, _, ⟨⟩⟩
  cases hfirst.symm.trans hfirst'
  exact ⟨_, w', _, w'', by decide +kernel, hfirst, rfl, hcode, hsecond, rfl⟩

end Stf

end Evolve
