import Mathlib
import Evolve.Stf.Funds

/-! What the writes of a transaction cost.  A write through the storage account and the registration
of an account are charged before they are made; the writes of a creation and of a migration are
not. -/

namespace Evolve

open Machine Borsh Effects

/-! ### Charges -/

/-- The configured charge for a write, which is a removal if there is no value. -/
def StorageGasConfig.writeCharge (config : StorageGasConfig) (key : Bytes) :
    Option Message → UInt64
  | some value => saturatingMul config.storageSetCharge (GasCounter.setSize key value)
  | none => saturatingMul config.storageRemoveCharge (GasCounter.removeSize key)

theorem GasCounter.consumeWriteGas_ok {limit used : UInt64} {config : StorageGasConfig}
    {key : Bytes} {entry : Option Message} {c : GasCounter}
    (h : (GasCounter.finite limit used config).consumeWriteGas key entry = .ok c) :
    c = .finite limit (saturatingAdd used (config.writeCharge key entry)) config := by
  have hconsume : (GasCounter.finite limit used config).consumeGas (config.writeCharge key entry) =
      .ok c := by
    cases entry with
    | none => exact h
    | some value => exact h
  unfold consumeGas at hconsume
  dsimp only at hconsume
  split at hconsume
  · cases hconsume
  · cases hconsume
    rfl

def World.MeteredBy (limit : UInt64) (config : StorageGasConfig) (w : World) : Prop :=
  ∃ used, w.gasCounter = .finite limit used config

def World.gasUsed (w : World) : Nat := w.gasCounter.gasUsed.toNat

theorem World.MeteredBy.silent {limit : UInt64} {config : StorageGasConfig} {w w' : World}
    (h : w.MeteredBy limit config) (hcharged : w.gasCounter.Charged w'.gasCounter) :
    w'.MeteredBy limit config ∧ w.gasUsed ≤ w'.gasUsed := by
  obtain ⟨used, hused⟩ := h
  unfold gasUsed MeteredBy
  rw [hused] at hcharged ⊢
  generalize w'.gasCounter = c at hcharged
  cases hcharged with
  | finite hle => exact ⟨⟨_, rfl⟩, hle⟩

namespace Action

variable (config : StorageGasConfig)

def charge : Action → Nat
  | .begins _ _ => 0
  | .write _ _ _ key entry => (config.writeCharge key entry).toNat

/-- The gas that is used in making a write covers its charge. -/
def isPaid : Action → Bool
  | .begins _ _ => true
  | .write _ w w' key entry => w.gasUsed + (config.writeCharge key entry).toNat ≤ w'.gasUsed

/-- A write with a charge that a creation or a migration makes, or one whose charge is more than the
counter can count. -/
def isUndercharged : Action → Bool
  | .begins _ _ => false
  | .write stack w _ key entry =>
    if stack.writesFree then config.writeCharge key entry != 0
    else u64Max.toNat < w.gasUsed + (config.writeCharge key entry).toNat

/-- A write is counted by a finite counter and is as the invoker makes it. -/
def Metered (limit : UInt64) : Action → Prop
  | .begins _ _ => True
  | .write stack w w' key entry =>
    w.MeteredBy limit config ∧ stack.Written key entry w w'

theorem Metered.isPaid_iff {config : StorageGasConfig} {limit : UInt64} {action : Action}
    (h : action.Metered config limit) :
    action.isPaid config = true ↔ action.isUndercharged config = false := by
  cases action with
  | begins => simp [isPaid, isUndercharged]
  | write stack w w' key entry =>
    obtain ⟨⟨used, hused⟩, hwritten⟩ := h
    have hbefore : w.gasUsed = used.toNat := by
      rw [World.gasUsed, hused]
      rfl
    cases hfree : stack.writesFree with
    | true =>
      have hafter : w'.gasUsed = used.toNat := by
        rw [World.gasUsed, hwritten.free hfree, hused]
        rfl
      simp [isPaid, isUndercharged, hfree, hbefore, hafter, ← UInt64.toNat_inj]
    | false =>
      have hcharged := hwritten.charged hfree
      rw [hused] at hcharged
      have hafter : w'.gasUsed =
          min (used.toNat + (config.writeCharge key entry).toNat) (2 ^ 64 - 1) := by
        rw [World.gasUsed, GasCounter.consumeWriteGas_ok hcharged]
        exact toNat_saturatingAdd _ _
      have hmax : u64Max.toNat = 2 ^ 64 - 1 := rfl
      simp [isPaid, isUndercharged, hfree, hbefore, hafter, hmax]

end Action

/-! ### The counter over a run -/

/-- A run under a finite counter makes its writes as the invoker does, and it uses gas for all of
them if it uses gas for each. -/
def Metering (limit : UInt64) (config : StorageGasConfig) (w : World) (l : List Action)
    (last : Option World) : Prop :=
  w.MeteredBy limit config →
    (∀ action ∈ l, action.Metered config limit) ∧
      ∀ w' ∈ last, w'.MeteredBy limit config ∧
        ((∀ action ∈ l, action.isPaid config) →
          w.gasUsed + (l.map (·.charge config)).sum ≤ w'.gasUsed)

theorem metering_rule (limit : UInt64) (config : StorageGasConfig) :
    WriteRule (fun _ _ => True) (Metering limit config) where
  refl w hw := by
    refine ⟨nofun, ?_⟩
    rintro _ ⟨⟩
    exact ⟨hw, fun _ => Nat.le_refl _⟩
  trans a l b l' o h₁ h₂ ha := by
    obtain ⟨hl, hb⟩ := h₁ ha
    obtain ⟨hb, hpaid⟩ := hb b rfl
    obtain ⟨hl', ho⟩ := h₂ hb
    refine ⟨fun action h => (List.mem_append.mp h).elim (hl action) (hl' action), ?_⟩
    intro w' hw'
    obtain ⟨hw', hpaid'⟩ := ho w' hw'
    refine ⟨hw', fun h => ?_⟩
    have h₁ := hpaid fun action hmem => h action (List.mem_append_left _ hmem)
    have h₂ := hpaid' fun action hmem => h action (List.mem_append_right _ hmem)
    simp only [List.map_append, List.sum_append]
    omega
  begets _ _ _ := trivial
  migrated _ _ := trivial
  exhausted _ _ _ := ⟨nofun, nofun⟩
  begins {fuel stack} _ w hw := by
    refine ⟨fun action h => ?_, ?_⟩
    · rw [List.mem_singleton.mp h]
      trivial
    · rintro _ ⟨⟩
      exact ⟨hw, fun _ => Nat.le_refl _⟩
  silent w w' h hw := by
    obtain ⟨hw', hle⟩ := hw.silent h.gasCounter
    refine ⟨nofun, ?_⟩
    rintro _ ⟨⟩
    exact ⟨hw', fun _ => hle⟩
  rollback w l w' _ h hw := by
    obtain ⟨hl, hlast⟩ := h hw
    refine ⟨hl, ?_⟩
    rintro _ ⟨⟩
    exact hlast w' rfl
  write {fuel stack w w' key entry} _ _ hwritten hw := by
    refine ⟨fun action h => ?_, ?_⟩
    · rw [List.mem_singleton.mp h]
      exact ⟨hw, hwritten⟩
    · rintro _ ⟨⟩
      have hcharged : w.gasCounter.Charged w'.gasCounter := by
        cases hfree : stack.writesFree with
        | true => rw [hwritten.free hfree]; exact .refl _
        | false => exact GasCounter.consumeWriteGas_charged (hwritten.charged hfree)
      refine ⟨(hw.silent hcharged).1, fun h => ?_⟩
      have hpaid := h _ (List.mem_singleton_self _)
      simpa [Action.isPaid, Action.charge] using hpaid

theorem metering_traceRule (host : Host) (limit : UInt64) (config : StorageGasConfig) :
    TraceRule host (fun _ _ => True) (Metering limit config) :=
  ((metering_rule limit config).actionRule host).traceRule (fun _ _ _ => trivial) fun _ _ => trivial

theorem allPhases_true (fuel : Nat) : AllPhases (fun _ _ => True) fuel :=
  ⟨fun _ _ => trivial, fun _ _ _ => trivial, fun _ _ _ => trivial⟩

/-! ### The writes of a transaction -/

section

variable {Tx Block : Type} [Transaction Tx] (host : Host) (fuel : Nat) (stf : Stf Tx Block)
  (tx : Tx) (block : BlockContext) (w : World)

/-- The gas that a transaction uses is at least the sum of the charges for the writes it makes, and
none of the writes is free. -/
structure WritesPaid : Prop where
  total : ∀ result w', stf.applyTx host fuel tx block w = .done (.ok result, w') →
    (((Traced.applyTx host fuel stf tx block).log w).map
      (·.charge stf.storageGasConfig)).sum ≤ result.gasUsed.toNat
  each : ∀ action ∈ (Traced.applyTx host fuel stf tx block).log w,
    action.isPaid stf.storageGasConfig

theorem meteredTx_gasUsed {result : TxResult} {w w' : World}
    (h : stf.meteredTx host fuel tx block w = .done (.ok result, w')) :
    result.gasUsed = w'.gasCounter.gasUsed := by
  unfold Stf.meteredTx at h
  rcases Exec.bind_done.mp h with ⟨admitted, w₁, -, h⟩ | ⟨e, -, ⟨⟩⟩
  cases admitted with
  | error err =>
    cases h
    rfl
  | ok sender =>
    rcases Exec.bind_done.mp h with ⟨response, w₂, -, h⟩ | ⟨e, -, ⟨⟩⟩
    cases h
    rfl

theorem applyTx_metering :
    Metering (Transaction.gasLimit tx) stf.storageGasConfig
      { w with gasCounter := stf.txGasCounter tx }
      ((Traced.applyTx host fuel stf tx block).log w)
      ((Traced.applyTx host fuel stf tx block).last w) :=
  (metering_traceRule host _ _).keeps_meteredTx (allPhases_true fuel) tx block _

/-- For all account codes and transactions: the gas that a transaction uses covers the charges for
all its writes, and each write is paid for, if and only if none is made by a creation or a migration
at a charge and none makes the counter saturate. -/
theorem writesPaid_iff :
    WritesPaid host fuel stf tx block w ↔
      ∀ action ∈ (Traced.applyTx host fuel stf tx block).log w,
        ¬ action.isUndercharged stf.storageGasConfig := by
  obtain ⟨hmetered, hlast⟩ := applyTx_metering host fuel stf tx block w ⟨_, rfl⟩
  have heach : (∀ action ∈ (Traced.applyTx host fuel stf tx block).log w,
        action.isPaid stf.storageGasConfig) ↔
      ∀ action ∈ (Traced.applyTx host fuel stf tx block).log w,
        ¬ action.isUndercharged stf.storageGasConfig := by
    refine forall₂_congr fun action hmem => ?_
    rw [(hmetered action hmem).isPaid_iff, Bool.not_eq_true]
  refine ⟨fun h => heach.mp h.each, fun h => ⟨fun result w' hdone => ?_, heach.mpr h⟩⟩
  have hexec : (Traced.applyTx host fuel stf tx block).exec w = .done (.ok result, w') := by
    rw [Traced.exec_applyTx]
    exact hdone
  have hsum := (hlast w' (Logged.last_eq_some hexec)).2 (heach.mpr h)
  rw [meteredTx_gasUsed host fuel stf tx block hdone]
  have hstart : ({ w with gasCounter := stf.txGasCounter tx } : World).gasUsed = 0 := rfl
  rwa [hstart, Nat.zero_add] at hsum

end

/-! ### A creation -/

def createTx : TestTx := ⟨.fromU64 200, runtimeAccountId, createIdle, 1000, [], none⟩

theorem createTx_ends :
    Exec.Ends (Traced.applyTx sampleHost 3 testStf createTx ⟨1, 0⟩).exec
      (fun r _ => r.toOption.any (fun result =>
        result.response.toOption.isSome && result.gasUsed == 0) = true) sampleWorld := by
  decide +kernel

/-- Creating an account writes its number and its code at a charge of 780, and uses no gas. -/
theorem create_not_writesPaid :
    (((Traced.applyTx sampleHost 3 testStf createTx ⟨1, 0⟩).log sampleWorld).map
        (·.charge testStf.storageGasConfig)).sum = 780 ∧
      (∃ result w', testStf.applyTx sampleHost 3 createTx ⟨1, 0⟩ sampleWorld =
          .done (.ok result, w') ∧
        result.response.toOption.isSome ∧ result.gasUsed = 0) ∧
      ¬ WritesPaid sampleHost 3 testStf createTx ⟨1, 0⟩ sampleWorld := by
  have hsum : (((Traced.applyTx sampleHost 3 testStf createTx ⟨1, 0⟩).log sampleWorld).map
      (·.charge testStf.storageGasConfig)).sum = 780 := by decide +kernel
  obtain ⟨r, w', hdone, hr⟩ := createTx_ends.exists
  rw [Traced.exec_applyTx] at hdone
  cases r with
  | error e => cases hr
  | ok result =>
    simp only [Except.toOption, Option.any_some, Bool.and_eq_true, beq_iff_eq] at hr
    refine ⟨hsum, ⟨result, w', hdone, hr.1, hr.2⟩, fun h => ?_⟩
    have htotal := h.total result w' hdone
    rw [hsum, hr.2] at htotal
    exact absurd htotal (by decide)

end Evolve
