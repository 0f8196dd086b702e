import Mathlib
import Evolve.Lib.Borsh
import Evolve.Storage.Sequence

/-! The chain state, which a node keeps in its storage to resume from. -/

namespace Evolve.Server

open Machine Borsh Storage

def chainStateKey : Bytes := Codec.utf8 "__evolve_chain_state__"

/-- The height, and what genesis has created. -/
structure ChainState (G : Type) where
  height : UInt64
  genesisResult : G

variable {G : Type}

def ChainState.codec (c : Codec G) : Codec (ChainState G) :=
  (Codec.u64.pair c).iso (fun p => ⟨p.1, p.2⟩) (fun s => (s.height, s.genesisResult)) fun _ => rfl

/-- What cannot be read or decoded is taken for a state that was never saved. -/
def loadChainState (c : Codec G) (get : Bytes → SdkResult (Option Bytes)) : Option (ChainState G) :=
  match get chainStateKey with
  | .ok value => value.bind (ChainState.codec c).fromSlice
  | .error _ => none

/-- The operation that saves a chain state, if the state has an encoding. -/
def ChainState.operations (c : Codec G) (state : ChainState G) : List Storage.Operation :=
  (((codec c).encode state).map fun value => Operation.set chainStateKey value).toList

/-! ### The chain state in the contents of a storage -/

/-- The chain state that a storage with these contents gives. -/
def savedState (c : Codec G) (m : KeyValues) : Option (ChainState G) :=
  (m chainStateKey).bind (ChainState.codec c).fromSlice

theorem loadChainState_eq {c : Codec G} {get : Bytes → SdkResult (Option Bytes)} {m : KeyValues}
    (h : get chainStateKey = .ok (m chainStateKey)) : loadChainState c get = savedState c m := by
  unfold loadChainState
  rw [h]
  rfl

/-- Operations on other keys. -/
def SparesChainState (operations : List Storage.Operation) : Prop :=
  ∀ op ∈ operations, op.key ≠ chainStateKey

variable {c : Codec G} {m : KeyValues}

theorem savedState_of_spares {operations : List Storage.Operation}
    (h : SparesChainState operations) :
    savedState c (operations.foldl Operation.applyTo m) = savedState c m := by
  induction operations generalizing m with
  | nil => rfl
  | cons op operations ih =>
    rw [List.foldl_cons, ih fun op hop => h op (List.mem_cons_of_mem _ hop)]
    have hother : op.applyTo m chainStateKey = m chainStateKey :=
      Function.update_of_ne (h op List.mem_cons_self).symm _ _
    unfold savedState
    rw [hother]

theorem savedState_operations {state : ChainState G} {value : Bytes}
    (h : (ChainState.codec c).encode state = some value) :
    savedState c ((state.operations c).foldl Operation.applyTo m) = some state := by
  have hset : (state.operations c).foldl Operation.applyTo m chainStateKey = some value := by
    unfold ChainState.operations
    rw [h]
    simp [Operation.applyTo, Operation.key, Operation.value]
  unfold savedState
  rw [hset]
  exact Codec.fromSlice_encode _ h

end Evolve.Server
