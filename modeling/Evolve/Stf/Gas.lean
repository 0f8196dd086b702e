import Mathlib
import Evolve.Core

/-! Gas: what storage operations cost and the counter that is charged. -/

namespace Evolve

open Machine

def errOutOfGas : ErrorCode := defineError 0x1

structure StorageGasConfig where
  storageGetCharge : UInt64
  storageSetCharge : UInt64
  storageRemoveCharge : UInt64
deriving DecidableEq

inductive GasCounter where
  | infinite
  | finite (gasLimit gasUsed : UInt64) (storageGasConfig : StorageGasConfig)
deriving DecidableEq

namespace GasCounter

variable (c : GasCounter)

/-- Charges `gas`; a charge past the limit fails and is not recorded. -/
def consumeGas (gas : UInt64) : SdkResult GasCounter :=
  match c with
  | infinite => .ok infinite
  | finite gasLimit gasUsed config =>
    let newGasUsed := saturatingAdd gasUsed gas
    if newGasUsed > gasLimit then .error errOutOfGas else .ok (finite gasLimit newGasUsed config)

def consumeStorageGas (charge : StorageGasConfig → UInt64) (totalSize : UInt64) :
    SdkResult GasCounter :=
  match c with
  | infinite => .ok infinite
  | finite _ _ config => c.consumeGas (saturatingMul (charge config) totalSize)

/-- The size that a read is charged for: an absent value counts one byte, a present one its length
and one more. -/
def getSize (key : Bytes) (value : Option Message) : UInt64 :=
  let valueLen := match value with
    | none => 1
    | some value => saturatingAdd (UInt64.ofNat value.length) 1
  saturatingAdd (saturatingAdd (UInt64.ofNat key.length) 1) valueLen

def setSize (key : Bytes) (value : Message) : UInt64 :=
  saturatingAdd (saturatingAdd (saturatingAdd (UInt64.ofNat key.length) 1)
    (UInt64.ofNat value.length)) 1

def removeSize (key : Bytes) : UInt64 := saturatingAdd (UInt64.ofNat key.length) 1

def consumeGetGas (key : Bytes) (value : Option Message) : SdkResult GasCounter :=
  c.consumeStorageGas (·.storageGetCharge) (getSize key value)

def consumeSetGas (key : Bytes) (value : Message) : SdkResult GasCounter :=
  c.consumeStorageGas (·.storageSetCharge) (setSize key value)

def consumeRemoveGas (key : Bytes) : SdkResult GasCounter :=
  c.consumeStorageGas (·.storageRemoveCharge) (removeSize key)

/-- The charge for a write, which is a removal if there is no value. -/
def consumeWriteGas (key : Bytes) : Option Message → SdkResult GasCounter
  | some value => c.consumeSetGas key value
  | none => c.consumeRemoveGas key

def gasUsed : GasCounter → UInt64
  | infinite => 0
  | finite _ used _ => used

/-- What charges can do to a counter: its kind, limit and configuration stay, the gas used does not
decrease, and it stays within the limit if it was. -/
inductive Charged : GasCounter → GasCounter → Prop
  | infinite : Charged infinite infinite
  | finite {limit used used' : UInt64} {config : StorageGasConfig} (le : used.toNat ≤ used'.toNat)
      (within : used.toNat ≤ limit.toNat → used'.toNat ≤ limit.toNat) :
      Charged (finite limit used config) (finite limit used' config)

theorem Charged.refl : Charged c c := by
  cases c with
  | infinite => exact .infinite
  | finite => exact .finite (le_refl _) id

theorem Charged.trans {a b c : GasCounter} (h₁ : Charged a b) (h₂ : Charged b c) : Charged a c := by
  cases h₁ with
  | infinite => exact h₂
  | finite le₁ within₁ =>
    cases h₂ with
    | finite le₂ within₂ => exact .finite (le₁.trans le₂) fun h => within₂ (within₁ h)

theorem consumeGas_charged {c c' : GasCounter} {gas : UInt64} (h : c.consumeGas gas = .ok c') :
    Charged c c' := by
  cases c with
  | infinite => cases h; exact .infinite
  | finite limit used config =>
    simp only [consumeGas] at h
    split at h
    · cases h
    · rename_i hle
      cases h
      rw [gt_iff_lt, UInt64.not_lt, UInt64.le_iff_toNat_le] at hle
      refine .finite ?_ fun _ => hle
      have hlt := used.toNat_lt
      rw [toNat_saturatingAdd]
      omega

theorem consumeStorageGas_charged {c c' : GasCounter} {charge : StorageGasConfig → UInt64}
    {size : UInt64} (h : c.consumeStorageGas charge size = .ok c') : Charged c c' := by
  cases c with
  | infinite => cases h; exact .infinite
  | finite => exact consumeGas_charged h

/-- The error of a charge past the limit, which a counter without a limit never gives. -/
def OutOf (e : ErrorCode) : Prop := e = errOutOfGas ∧ c ≠ infinite

theorem outOf_of_consumeStorageGas {c : GasCounter} {charge : StorageGasConfig → UInt64}
    {size : UInt64} {e : ErrorCode} (h : c.consumeStorageGas charge size = .error e) :
    c.OutOf e := by
  cases c with
  | infinite => cases h
  | finite limit used config =>
    simp only [consumeStorageGas, consumeGas] at h
    split at h
    · cases h
      exact ⟨rfl, nofun⟩
    · cases h

theorem consumeWriteGas_charged {c c' : GasCounter} {key : Bytes} {entry : Option Message}
    (h : c.consumeWriteGas key entry = .ok c') : Charged c c' := by
  cases entry with
  | none => exact consumeStorageGas_charged h
  | some value => exact consumeStorageGas_charged h

end GasCounter

end Evolve
