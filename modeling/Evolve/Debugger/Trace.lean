import Mathlib
import Evolve.Lib.Machine
import Evolve.Lib.Table

/-! Execution traces of the debugger: snapshots of the state, the recorded events, and the state
that a trace has after some of its events. -/

namespace Evolve.Debugger

open Machine

/-! ### Snapshots -/

/-- The entries of a hash map, in the order in which it happens to be iterated over. -/
abbrev StateData := Relational.Table (Prod.fst : Bytes × Bytes → Bytes)

structure StateSnapshot where
  data : StateData
  height : UInt64
  timestampMs : UInt64

variable (s : StateSnapshot)

namespace StateSnapshot

def empty : StateSnapshot := ⟨.empty, 0, 0⟩

def get (key : Bytes) : Option Bytes := (s.data.find key).map Prod.snd

/-- The same value, or none, for every key. -/
def SameContents (s t : StateSnapshot) : Prop := ∀ key, s.get key = t.get key

/-- Snapshots that agree in all that can be read from them but the order of their entries. -/
structure Same (s t : StateSnapshot) : Prop where
  contents : s.SameContents t
  height : s.height = t.height
  timestampMs : s.timestampMs = t.timestampMs

theorem Same.refl : s.Same s := ⟨fun _ => rfl, rfl, rfl⟩

theorem get_eq_some_iff {s : StateSnapshot} {key value : Bytes} :
    s.get key = some value ↔ (key, value) ∈ s.data.rows := by
  unfold get
  rw [Option.map_eq_some_iff]
  constructor
  · rintro ⟨⟨k, v⟩, hfind, rfl⟩
    obtain ⟨hmem, rfl⟩ := Relational.Table.find_eq_some_iff.mp hfind
    exact hmem
  · intro hmem
    exact ⟨(key, value), Relational.Table.find_eq_some_iff.mpr ⟨hmem, rfl⟩, rfl⟩

end StateSnapshot

/-! ### Events -/

/-- The recorded events, with the fields that replaying and breakpoints read. -/
inductive TraceEvent where
  | blockStart (height : UInt64) (eventIndex : Nat)
  | txStart (txId sender recipient : FixedBytes 32) (eventIndex : Nat)
  | stateChange (key : Bytes) (newValue : Option Bytes) (eventIndex : Nat)
  | call (caller callee : FixedBytes 32) (eventIndex : Nat)
  | callReturn (eventIndex : Nat)
  | gasCharge (remaining : UInt64) (eventIndex : Nat)
  | eventEmitted (name : String) (eventIndex : Nat)
  | txEnd (eventIndex : Nat)
  | blockEnd (eventIndex : Nat)
  | checkpoint (eventIndex : Nat)
  | rollback (eventIndex : Nat)
  | error (eventIndex : Nat)

def TraceEvent.eventIndex : TraceEvent → Nat
  | .blockStart _ eventIndex => eventIndex
  | .txStart _ _ _ eventIndex => eventIndex
  | .stateChange _ _ eventIndex => eventIndex
  | .call _ _ eventIndex => eventIndex
  | .callReturn eventIndex => eventIndex
  | .gasCharge _ eventIndex => eventIndex
  | .eventEmitted _ eventIndex => eventIndex
  | .txEnd eventIndex => eventIndex
  | .blockEnd eventIndex => eventIndex
  | .checkpoint eventIndex => eventIndex
  | .rollback eventIndex => eventIndex
  | .error eventIndex => eventIndex

namespace StateSnapshot

/-- What an event does to the state; only a recorded state change does anything, so not even the
height and the timestamp follow the blocks. -/
def applyEvent : TraceEvent → StateSnapshot
  | .stateChange key (some value) _ => { s with data := s.data.upsert (key, value) }
  | .stateChange key none _ => { s with data := s.data.delete fun row => row.1 = key }
  | _ => s

theorem get_applyEvent_stateChange (key : Bytes) (newValue : Option Bytes) (index : Nat)
    (k : Bytes) : (s.applyEvent (.stateChange key newValue index)).get k =
      if k = key then newValue else s.get k := by
  refine Option.ext fun v => ?_
  rw [get_eq_some_iff]
  cases newValue with
  | none =>
    simp only [applyEvent, Relational.Table.mem_delete]
    split <;> rename_i hk <;> simp [hk, get_eq_some_iff]
  | some value =>
    simp only [applyEvent, Relational.Table.mem_upsert]
    split <;> rename_i hk
    · simp [hk, eq_comm]
    · simp [hk, get_eq_some_iff]

theorem applyEvent_height (event : TraceEvent) : (s.applyEvent event).height = s.height := by
  unfold applyEvent
  split <;> rfl

theorem applyEvent_timestampMs (event : TraceEvent) :
    (s.applyEvent event).timestampMs = s.timestampMs := by
  unfold applyEvent
  split <;> rfl

theorem Same.applyEvent {s t : StateSnapshot} (h : s.Same t) (event : TraceEvent) :
    (s.applyEvent event).Same (t.applyEvent event) := by
  refine ⟨fun k => ?_, ?_, ?_⟩
  · cases event with
    | stateChange key newValue index =>
      rw [get_applyEvent_stateChange, get_applyEvent_stateChange, h.contents k]
    | _ => exact h.contents k
  · rw [applyEvent_height, applyEvent_height, h.height]
  · rw [applyEvent_timestampMs, applyEvent_timestampMs, h.timestampMs]

/-- The event leaves the contents as they are: it is no state change, or it writes what is there
already. -/
def Unaffected : TraceEvent → Prop
  | .stateChange key newValue _ => s.get key = newValue
  | _ => True

theorem same_applyEvent_iff {s : StateSnapshot} {event : TraceEvent} :
    (s.applyEvent event).Same s ↔ s.Unaffected event := by
  cases event with
  | stateChange key newValue index =>
    constructor
    · intro h
      have hkey := h.contents key
      rw [get_applyEvent_stateChange, if_pos rfl] at hkey
      exact hkey.symm
    · intro (h : s.get key = newValue)
      refine ⟨fun k => ?_, applyEvent_height s _, applyEvent_timestampMs s _⟩
      rw [get_applyEvent_stateChange]
      split <;> rename_i hk
      · rw [hk, h]
      · rfl
  | _ => exact ⟨fun _ => trivial, fun _ => Same.refl s⟩

end StateSnapshot

/-! ### Traces -/

structure ExecutionTrace where
  initialState : StateSnapshot
  events : List TraceEvent

namespace ExecutionTrace

variable (trace : ExecutionTrace)

def len : Nat := trace.events.length

/-- The state after the event with this index. -/
def stateAt (eventIndex : Nat) : StateSnapshot :=
  (trace.events.take (eventIndex + 1)).foldl StateSnapshot.applyEvent trace.initialState

/-- The state in which the first `n` events have been applied. -/
def stateAfter (n : Nat) : StateSnapshot :=
  (trace.events.take n).foldl StateSnapshot.applyEvent trace.initialState

theorem stateAt_eq (eventIndex : Nat) :
    trace.stateAt eventIndex = trace.stateAfter (eventIndex + 1) := rfl

@[simp] theorem stateAfter_zero : trace.stateAfter 0 = trace.initialState := rfl

theorem stateAfter_succ {trace : ExecutionTrace} {n : Nat} (hn : n < trace.events.length) :
    trace.stateAfter (n + 1) = (trace.stateAfter n).applyEvent trace.events[n] := by
  unfold stateAfter
  rw [List.take_succ_eq_append_getElem hn, List.foldl_append]
  rfl

end ExecutionTrace

end Evolve.Debugger
