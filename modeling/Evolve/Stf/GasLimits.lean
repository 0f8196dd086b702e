import Mathlib
import Evolve.Stf.Congruence
import Evolve.Stf.Block

/-! Gas limits.  A transaction that ends with some gas used ends in the same way under every limit
from that gas up to its own: a charge that its limit allows is part of the gas used, and one that
its limit refuses a smaller limit refuses too, whether or not account code swallows the error. -/

namespace Evolve

open Machine Borsh Effects

/-! ### Counters with another limit -/

namespace GasCounter

def withLimit (limit : UInt64) : GasCounter → GasCounter
  | infinite => infinite
  | finite _ used config => finite limit used config

/-- A limit from the gas used up to the limit of the counter. -/
def Covers (limit : UInt64) : GasCounter → Prop
  | infinite => True
  | finite gasLimit used _ => used.toNat ≤ limit.toNat ∧ limit.toNat ≤ gasLimit.toNat

@[simp] theorem gasUsed_withLimit (limit : UInt64) (c : GasCounter) :
    (c.withLimit limit).gasUsed = c.gasUsed := by
  cases c <;> rfl

theorem Covers.of_charged {limit : UInt64} {c c' : GasCounter} (hc : c'.Covers limit)
    (h : c.Charged c') : c.Covers limit := by
  cases h with
  | infinite => trivial
  | finite le within => exact ⟨le.trans hc.1, hc.2⟩

theorem covers_of_charged {limit gasLimit used : UInt64} {config : StorageGasConfig}
    {c : GasCounter} (h : Charged (finite gasLimit used config) c)
    (hused : c.gasUsed.toNat ≤ limit.toNat) (hlimit : limit.toNat ≤ gasLimit.toNat) :
    c.Covers limit := by
  cases h with
  | finite _ _ => exact ⟨hused, hlimit⟩

variable {limit : UInt64} {c c' : GasCounter} {charge : StorageGasConfig → UInt64} {size : UInt64}

theorem consumeStorageGas_withLimit (h : c.consumeStorageGas charge size = .ok c')
    (hc : c'.Covers limit) :
    (c.withLimit limit).consumeStorageGas charge size = .ok (c'.withLimit limit) := by
  cases c with
  | infinite =>
    cases h
    rfl
  | finite gasLimit used config =>
    simp only [consumeStorageGas, consumeGas] at h
    split at h
    · cases h
    · cases h
      have hle : ¬ saturatingAdd used (saturatingMul (charge config) size) > limit := by
        rw [gt_iff_lt, UInt64.lt_iff_toNat_lt]
        exact Nat.not_lt.mpr hc.1
      exact if_neg hle

theorem consumeStorageGas_withLimit_error {e : ErrorCode}
    (h : c.consumeStorageGas charge size = .error e) (hc : c.Covers limit) :
    (c.withLimit limit).consumeStorageGas charge size = .error e := by
  cases c with
  | infinite => cases h
  | finite gasLimit used config =>
    simp only [consumeStorageGas, consumeGas] at h
    split at h
    · rename_i hover
      cases h
      have hlt : saturatingAdd used (saturatingMul (charge config) size) > limit := by
        rw [gt_iff_lt, UInt64.lt_iff_toNat_lt] at hover ⊢
        exact Nat.lt_of_le_of_lt hc.2 hover
      exact if_pos hlt
    · cases h

end GasCounter

/-! ### Two runs under different limits -/

/-- The same state under another gas limit. -/
structure World.Relimited (limit : UInt64) (w w₂ : World) : Prop where
  storage : w₂.storage = w.storage
  gasCounter : w₂.gasCounter = w.gasCounter.withLimit limit

/-- The second run is under a limit that covers the gas which the first run ends with. -/
def limitCoupling (limit : UInt64) : Coupling Action World where
  Keep w w' := w.gasCounter.Charged w'.gasCounter
  Before w w₂ _ w' := w.Relimited limit w₂ ∧ w'.gasCounter.Covers limit
  After _ _ _ w' w₂' := w'.Relimited limit w₂'

namespace limitCoupling

variable {limit : UInt64} {α : Type}

theorem composes : (limitCoupling limit).Composes where
  keep_refl w := .refl w.gasCounter
  keep_trans _ _ _ := .trans
  after_refl _ _ h := h.1
  before_left _ _ _ _ _ _ h hkeep := ⟨h.1, h.2.of_charged hkeep⟩
  before_right _ _ _ _ _ _ _ h hafter := ⟨hafter, h.2⟩
  after_trans _ _ _ _ _ _ _ _ _ h := h

theorem undoRule : UndoRule (limitCoupling limit) where
  keep_checkpoint h := h
  before_checkpoint h := ⟨⟨congrArg (fun s => s.checkpoint.2) h.1.storage, h.1.gasCounter⟩, h.2⟩
  after_checkpoint h := h
  keep_rollback h := h
  before_rollback h := h
  after_rollback {w w₂ w' w₂' l} _ _ hbefore hafter := by
    refine ⟨?_, hafter.gasCounter⟩
    show w₂.storage.rollback w₂'.storage = w.storage.rollback w'.storage
    rw [hbefore.1.storage, hafter.storage]

/-- The log plays no part. -/
theorem of_exec {m m₂ n n₂ : Traced α} (h : (limitCoupling limit).Couples m m₂)
    (hm : n.exec = m.exec) (hm₂ : n₂.exec = m₂.exec) : (limitCoupling limit).Couples n n₂ := by
  intro w r w' hr
  rw [hm] at hr
  rw [hm₂]
  exact h hr

/-- An operation on the execution state that does not look at the counter. -/
def StorageOp (f : ExecutionState → SdkResult α × ExecutionState) (m : Run α) : Prop :=
  ∀ w, ∃ history, m w = .done ((f w.storage).1, ⟨(f w.storage).2, w.gasCounter, history⟩)

theorem couples_storageOp {f : ExecutionState → SdkResult α × ExecutionState} {m m₂ : Traced α}
    (hm : StorageOp f m.exec) (hm₂ : StorageOp f m₂.exec) :
    (limitCoupling limit).Couples m m₂ := by
  intro w r w' h
  obtain ⟨history, hdone⟩ := hm w
  rw [hdone] at h
  cases h
  refine ⟨.refl _, fun w₂ hbefore => ?_⟩
  obtain ⟨history₂, hdone₂⟩ := hm₂ w₂
  rw [hbefore.1.storage] at hdone₂
  exact ⟨_, hdone₂, ⟨rfl, hbefore.1.gasCounter⟩⟩

/-- Computations that change at most what nothing reads. -/
theorem couples_still {m m₂ : Traced Unit}
    (hm : ∀ w, ∃ history, m.exec w = .done (.ok (), { w with history }))
    (hm₂ : ∀ w, ∃ history, m₂.exec w = .done (.ok (), { w with history })) :
    (limitCoupling limit).Couples m m₂ :=
  couples_storageOp (f := fun s => ((.ok () : SdkResult Unit), s)) hm hm₂

theorem couples_update (f : ExecutionState → SdkResult ExecutionState) {m : Traced Unit}
    (hm : m.exec = Run.update f) : (limitCoupling limit).Couples m m := by
  have hop : StorageOp (fun s => ((f s).map fun _ => (), (f s).toOption.getD s)) m.exec := by
    intro w
    refine ⟨w.history, ?_⟩
    rw [hm, Run.update]
    dsimp only
    cases f w.storage <;> rfl
  exact couples_storageOp hop hop

theorem couples_charge (charge : StorageGasConfig → UInt64) (size : UInt64) :
    (limitCoupling limit).Couples
      (Logged.lift (Run.charge (·.consumeStorageGas charge size)))
      (Logged.lift (Run.charge (·.consumeStorageGas charge size))) := by
  intro w r w' h
  simp only [Logged.exec_lift, Run.charge] at h ⊢
  cases hcharge : w.gasCounter.consumeStorageGas charge size with
  | error e =>
    rw [hcharge] at h
    cases h
    refine ⟨.refl _, fun w₂ hbefore => ⟨w₂, ?_, hbefore.1⟩⟩
    rw [hbefore.1.gasCounter, GasCounter.consumeStorageGas_withLimit_error hcharge hbefore.2]
  | ok c =>
    rw [hcharge] at h
    cases h
    refine ⟨GasCounter.consumeStorageGas_charged hcharge, fun w₂ hbefore =>
      ⟨{ w₂ with gasCounter := c.withLimit limit }, ?_, ⟨hbefore.1.storage, rfl⟩⟩⟩
    rw [hbefore.1.gasCounter, GasCounter.consumeStorageGas_withLimit hcharge hbefore.2]

theorem couples_charged {charge : StorageGasConfig → UInt64} {size : UInt64}
    {f : ExecutionState → SdkResult ExecutionState} {m : Traced Unit}
    (hm : m.exec = (do
      Run.charge (·.consumeStorageGas charge size)
      Run.update f)) : (limitCoupling limit).Couples m m :=
  of_exec (composes.bind (couples_charge charge size) fun _ =>
    couples_update f (m := Logged.lift (Run.update f)) rfl) hm hm

/-- Every call and every transaction can be run under the other limit. -/
theorem callCongruence :
    CallCongruence (fun _ => True) fun _ m m₂ => (limitCoupling limit).Couples m m₂ where
  ofExcept := composes.ofExcept
  bind := composes.bind
  attempt := .attempt
  begins _ _ := couples_still (fun _ => ⟨_, rfl⟩) fun _ => ⟨_, rfl⟩
  get key := couples_storageOp (f := (·.get key)) (fun _ => ⟨_, rfl⟩) fun _ => ⟨_, rfl⟩
  charge := couples_charge
  set _ key value := couples_update (·.set key value) rfl
  chargedSet _ key value := couples_charged (f := (·.set key value)) rfl
  chargedRemove _ key := couples_charged (f := (·.remove key)) rfl
  readStorage := Coupling.couples_read
  note _ _ := couples_still (fun _ => ⟨_, rfl⟩) fun _ => ⟨_, rfl⟩
  gasUsed := by
    rintro w _ _ ⟨⟩
    refine ⟨.refl _, fun w₂ hbefore => ⟨w₂, ?_, hbefore.1⟩⟩
    show Outcome.done (Except.ok w₂.gasCounter.gasUsed, w₂) = _
    rw [hbefore.1.gasCounter, GasCounter.gasUsed_withLimit]
  emitEvent _ frame name data := by
    refine composes.bind (couples_still (fun _ => ⟨_, rfl⟩) fun _ => ⟨_, rfl⟩) fun _ => ?_
    unfold Invoker.emitEvent
    rw [Logged.lift_bind]
    exact composes.bind (composes.ofExcept _) fun _ =>
      couples_update (·.emitEvent ⟨frame.whoami, name, data⟩) rfl
  uniqueId _ frame _ := couples_storageOp
    (f := fun s => (frame.scope.uniqueId (s.uniqueObjects + 1), s.nextUniqueObjectId.2))
    (fun _ => ⟨_, rfl⟩) fun _ => ⟨_, rfl⟩
  outOfFuel := @fun _ => Coupling.outOfFuel _
  orRollback := undoRule.couples_orRollback
  popEvents := couples_storageOp (f := fun s => (.ok s.popEvents.1, s.popEvents.2))
    (fun _ => ⟨_, rfl⟩) fun _ => ⟨_, rfl⟩

end limitCoupling

/-! ### Transactions -/

section

variable {Tx Block : Type} [Transaction Tx]

/-- Two transactions that nothing but their gas limits tells apart: not the code they run, and not
the validator and the hook either. -/
structure Stf.SameButGasLimit (stf : Stf Tx Block) (tx tx' : Tx) : Prop where
  request : Transaction.request tx' = Transaction.request tx
  funds : Transaction.funds tx' = Transaction.funds tx
  computeIdentifier : Transaction.computeIdentifier tx' = Transaction.computeIdentifier tx
  resolveSenderAccount : Transaction.resolveSenderAccount tx' = Transaction.resolveSenderAccount tx
  resolveRecipientAccount :
    Transaction.resolveRecipientAccount tx' = Transaction.resolveRecipientAccount tx
  senderBootstrap : Transaction.senderBootstrap tx' = Transaction.senderBootstrap tx
  afterSenderBootstrap : Transaction.afterSenderBootstrap tx' = Transaction.afterSenderBootstrap tx
  validateTx : stf.validateTx tx' = stf.validateTx tx
  afterTxExecuted : stf.afterTxExecuted tx' = stf.afterTxExecuted tx

variable {host : Host} {fuel : Nat} {stf : Stf Tx Block} {tx tx' : Tx} {block : BlockContext}

theorem Stf.SameButGasLimit.meteredTx_eq (h : stf.SameButGasLimit tx tx') :
    stf.meteredTx host fuel tx' block = stf.meteredTx host fuel tx block := by
  have hadmitted : stf.admitTx host fuel tx' block = stf.admitTx host fuel tx block := by
    simp only [Stf.admitTx, Stf.resolveSenderPhase, Stf.bootstrapSenderPhase, Stf.validateTxPhase,
      Stf.validationFrame, h.computeIdentifier, h.resolveSenderAccount, h.senderBootstrap,
      h.afterSenderBootstrap, h.validateTx]
  have hexecute : stf.executeTxPhase host fuel tx' = stf.executeTxPhase host fuel tx := by
    funext sender block
    unfold Stf.executeTxPhase Stf.executionFrame Stf.validationFrame
    rw [h.computeIdentifier, h.resolveRecipientAccount, h.request, h.funds, h.afterTxExecuted]
  unfold Stf.meteredTx
  rw [hadmitted, hexecute]

/-- For all account codes, states and transactions: if a transaction ends with some gas used, it has
the same result and leaves the same state under every gas limit from there up to its own. -/
theorem applyTx_smaller_limit {w w' : World} {result : TxResult}
    (hsame : stf.SameButGasLimit tx tx')
    (h : stf.applyTx host fuel tx block w = .done (.ok result, w'))
    (hused : result.gasUsed ≤ Transaction.gasLimit tx')
    (hlimit : Transaction.gasLimit tx' ≤ Transaction.gasLimit tx) :
    ∃ w₂, stf.applyTx host fuel tx' block w = .done (.ok result, w₂) ∧
      w₂.storage = w'.storage := by
  have hmetered : stf.meteredTx host fuel tx block (stf.metered tx w) = .done (.ok result, w') := h
  obtain ⟨_, ⟨⟩, hgas⟩ := Stf.meteredTx_done hmetered
  have hcouples : (limitCoupling (Transaction.gasLimit tx')).Couples
      (Traced.meteredTx host fuel stf tx block) (Traced.meteredTx host fuel stf tx block) :=
    limitCoupling.callCongruence.meteredTx trivial trivial
  have hexec : (Traced.meteredTx host fuel stf tx block).exec = stf.meteredTx host fuel tx block :=
    Parts.exec_meteredTx (BlockPart.exec_traced host fuel stf) tx block
  rw [← hexec] at hmetered
  obtain ⟨hcharged, hfollow⟩ := hcouples hmetered
  have hcovers : w'.gasCounter.Covers (Transaction.gasLimit tx') :=
    GasCounter.covers_of_charged hcharged (UInt64.le_iff_toNat_le.mp (hgas ▸ hused))
      (UInt64.le_iff_toNat_le.mp hlimit)
  obtain ⟨w₂, hdone, hafter⟩ := hfollow (stf.metered tx' w) ⟨⟨rfl, rfl⟩, hcovers⟩
  rw [hexec, ← hsame.meteredTx_eq] at hdone
  exact ⟨w₂, hdone, hafter.storage⟩

end

/-! ### Code that goes on without gas -/

/-- Code that stores a large value if it can pay for it, and then a small one. -/
def thriftyCode : AccountCode where
  init _ _ := Prog.ofExcept (InvokeResponse.new ())
  execute _ _ := do
    let large ← Prog.ofExcept
      (InvokeRequest.new (StorageSetRequest.mk [7] (List.replicate 100 1)))
    let _ ← Prog.attempt (Prog.request (EnvOp.doExec storageAccountId large []))
    let small ← Prog.ofExcept (InvokeRequest.new (StorageSetRequest.mk [8] [1]))
    let _ ← Prog.request (EnvOp.doExec storageAccountId small [])
    Prog.ofExcept (InvokeResponse.new ())
  query _ _ := Prog.throw errUnknownFunction

def thriftyHost : Host where
  withCode _ := .ok (some thriftyCode)
  isAlphanumeric c := c.isAlphanum

def thriftyTx (gasLimit : UInt64) : TestTx :=
  ⟨.fromU64 200, .fromU64 10, Invoker.initRequest [], gasLimit, [], none⟩

theorem thriftyTx_ends :
    Exec.Ends (testStf.applyTx thriftyHost 3 (thriftyTx 1000) ⟨1, 0⟩)
      (fun r _ => r.toOption.any (fun result =>
        result.response.toOption.isSome && result.gasUsed == 370) = true) sampleWorld := by
  decide +kernel

/-- The large value is refused under both limits, and the gas used is a limit that suffices. -/
theorem applyTx_smaller_limit_thrifty :
    ∃ result w' w₂,
      testStf.applyTx thriftyHost 3 (thriftyTx 1000) ⟨1, 0⟩ sampleWorld = .done (.ok result, w') ∧
      result.response.toOption.isSome ∧ result.gasUsed = 370 ∧
      testStf.applyTx thriftyHost 3 (thriftyTx 370) ⟨1, 0⟩ sampleWorld = .done (.ok result, w₂) ∧
      w₂.storage = w'.storage := by
  obtain ⟨r, w', hdone, hr⟩ := thriftyTx_ends.exists
  cases r with
  | error e => cases hr
  | ok result =>
    simp only [Except.toOption, Option.any_some, Bool.and_eq_true, beq_iff_eq] at hr
    have hsame : testStf.SameButGasLimit (thriftyTx 1000) (thriftyTx 370) :=
      ⟨rfl, rfl, rfl, rfl, rfl, rfl, rfl, rfl, rfl⟩
    have hused : result.gasUsed ≤ Transaction.gasLimit (thriftyTx 370) := by
      rw [hr.2]
      decide
    obtain ⟨w₂, hdone₂, hstorage⟩ := applyTx_smaller_limit hsame hdone hused (by decide)
    exact ⟨result, w', w₂, hdone, hr.1, hr.2, hdone₂, hstorage⟩

end Evolve
