import Mathlib
import Evolve.Debugger.Trace

/-! The replayer of the debugger, which walks through a recorded trace in both directions.  Forward
steps change the state by one event; jumps and backward steps compute it anew with `stateAt`, which
counts events from zero, at the position before. -/

namespace Evolve.Debugger

open Machine

/-! ### Breakpoints -/

inductive Breakpoint where
  | onBlock (height : UInt64)
  | onTx (txId : FixedBytes 32)
  | onAccount (account : FixedBytes 32)
  | onStorageKey (key : Bytes)
  | onError
  | onGasExhausted
  | onStoragePrefix (start : Bytes)
  | onEvent (name : String)
  | onEventIndex (index : Nat)
  | all (breakpoints : List Breakpoint)
  | any (breakpoints : List Breakpoint)
  | not (breakpoint : Breakpoint)

namespace Breakpoint

mutual

/-- `Breakpoint::matches`, which is also given the state and does not look at it. -/
def «matches» (event : TraceEvent) : Breakpoint → Bool
  | .onBlock height =>
    match event with
    | .blockStart h _ => h == height
    | _ => false
  | .onTx txId =>
    match event with
    | .txStart id _ _ _ => id == txId
    | _ => false
  | .onAccount account =>
    match event with
    | .txStart _ sender recipient _ => sender == account || recipient == account
    | .call caller callee _ => caller == account || callee == account
    | _ => false
  | .onStorageKey key =>
    match event with
    | .stateChange k _ _ => k == key
    | _ => false
  | .onStoragePrefix start =>
    match event with
    | .stateChange key _ _ => start.isPrefixOf key
    | _ => false
  | .onError =>
    match event with
    | .error _ => true
    | _ => false
  | .onGasExhausted =>
    match event with
    | .gasCharge remaining _ => remaining == 0
    | _ => false
  | .onEvent name =>
    match event with
    | .eventEmitted n _ => n == name
    | _ => false
  | .onEventIndex index => event.eventIndex == index
  | .all breakpoints => matchesAll event breakpoints
  | .any breakpoints => matchesAny event breakpoints
  | .not breakpoint => !breakpoint.matches event

def matchesAll (event : TraceEvent) : List Breakpoint → Bool
  | [] => true
  | breakpoint :: breakpoints => breakpoint.matches event && matchesAll event breakpoints

def matchesAny (event : TraceEvent) : List Breakpoint → Bool
  | [] => false
  | breakpoint :: breakpoints => breakpoint.matches event || matchesAny event breakpoints

end

end Breakpoint

/-! ### The replayer -/

inductive StepResult where
  | ok
  | hitBreakpoint (index : Nat)
  | atBeginning
  | atEnd

structure Replayer where
  trace : ExecutionTrace
  position : Nat
  currentState : StateSnapshot
  breakpoints : List Breakpoint
  history : List Nat
  maxHistory : Nat

namespace Replayer

def new (trace : ExecutionTrace) : Replayer where
  trace := trace
  position := 0
  currentState := trace.initialState
  breakpoints := []
  history := []
  maxHistory := 1000

variable (r : Replayer)

def currentEvent : Option TraceEvent := r.trace.events[r.position]?

/-- The first breakpoint that matches the event at the position. -/
def checkBreakpoints : Option Nat :=
  r.currentEvent.bind fun event => r.breakpoints.findIdx? (·.matches event)

/-- Records the position, in the place of the oldest one if there are too many. -/
def pushHistory : Replayer :=
  { r with
    history := (if r.maxHistory ≤ r.history.length then r.history.eraseIdx 0 else r.history) ++
      [r.position] }

def applyEventToState (eventIdx : Nat) : Replayer :=
  match r.trace.events[eventIdx]? with
  | none => r
  | some event => { r with currentState := r.currentState.applyEvent event }

/-- How a move ends that checks for breakpoints. -/
def stopAtBreakpoint : Replayer × StepResult :=
  match r.checkBreakpoints with
  | some index => (r, .hitBreakpoint index)
  | none => (r, .ok)

def step : Replayer × StepResult :=
  if r.trace.len ≤ r.position then (r, .atEnd)
  else
    let moved := r.pushHistory.applyEventToState r.position
    { moved with position := moved.position + 1 }.stopAtBreakpoint

def stepBack : Replayer × StepResult :=
  if r.position = 0 then (r, .atBeginning)
  else
    let position := r.position - 1
    ({ r with position, currentState := r.trace.stateAt (position - 1) }, .ok)

def gotoPosition (target : Nat) : Replayer × StepResult :=
  if r.trace.len ≤ target then (r, .atEnd)
  else
    { r.pushHistory with
      position := target
      currentState := r.trace.stateAt (target - 1) }.stopAtBreakpoint

/-- Goes to the first event of a kind, or stays where it is. -/
def gotoFirst (wanted : TraceEvent → Bool) : Replayer × StepResult :=
  match r.trace.events.findIdx? wanted with
  | some index => r.gotoPosition index
  | none => (r, .ok)

def gotoBlock (height : UInt64) : Replayer × StepResult :=
  r.gotoFirst fun
    | .blockStart h _ => h == height
    | _ => false

def gotoTx (txId : FixedBytes 32) : Replayer × StepResult :=
  r.gotoFirst fun
    | .txStart id _ _ _ => id == txId
    | _ => false

def reset : Replayer :=
  { r with position := 0, currentState := r.trace.initialState, history := [] }

def addBreakpoint (breakpoint : Breakpoint) : Replayer × Nat :=
  ({ r with breakpoints := r.breakpoints ++ [breakpoint] }, r.breakpoints.length)

def removeBreakpoint (index : Nat) : Replayer × Option Breakpoint :=
  match r.breakpoints[index]? with
  | some breakpoint => ({ r with breakpoints := r.breakpoints.eraseIdx index }, some breakpoint)
  | none => (r, none)

def clearBreakpoints : Replayer := { r with breakpoints := [] }

/-! ### Moves -/

/-- What one operation does to the position and the state: nothing, or it applies the event at the
position, or computes the state of another position, or starts anew. -/
inductive Moves (r r' : Replayer) : Prop
  | stays (htrace : r'.trace = r.trace) (hposition : r'.position = r.position)
      (hstate : r'.currentState = r.currentState)
  | advances (htrace : r'.trace = r.trace) (hbound : r.position < r.trace.events.length)
      (hposition : r'.position = r.position + 1)
      (hstate : r'.currentState = r.currentState.applyEvent r.trace.events[r.position])
  | jumps (htrace : r'.trace = r.trace)
      (hstate : r'.currentState = r.trace.stateAt (r'.position - 1))
  | restarts (htrace : r'.trace = r.trace) (hposition : r'.position = 0)
      (hstate : r'.currentState = r.trace.initialState)

theorem stopAtBreakpoint_fst : r.stopAtBreakpoint.1 = r := by
  unfold stopAtBreakpoint
  split <;> rfl

theorem moves_step : Moves r r.step.1 := by
  unfold step
  split <;> rename_i hend
  · exact .stays rfl rfl rfl
  · have hbound : r.position < r.trace.events.length := Nat.lt_of_not_le hend
    have hevent : r.pushHistory.trace.events[r.position]? = some r.trace.events[r.position] :=
      List.getElem?_eq_getElem hbound
    simp only [stopAtBreakpoint_fst, applyEventToState, hevent]
    exact .advances rfl hbound rfl rfl

theorem moves_stepBack : Moves r r.stepBack.1 := by
  unfold stepBack
  split
  · exact .stays rfl rfl rfl
  · exact .jumps rfl rfl

theorem moves_gotoPosition (target : Nat) : Moves r (r.gotoPosition target).1 := by
  unfold gotoPosition
  split
  · exact .stays rfl rfl rfl
  · rw [stopAtBreakpoint_fst]
    exact .jumps rfl rfl

theorem moves_gotoFirst (wanted : TraceEvent → Bool) : Moves r (r.gotoFirst wanted).1 := by
  unfold gotoFirst
  split
  · exact moves_gotoPosition r _
  · exact .stays rfl rfl rfl

theorem moves_removeBreakpoint (index : Nat) : Moves r (r.removeBreakpoint index).1 := by
  unfold removeBreakpoint
  split <;> exact .stays rfl rfl rfl

/-! ### Runs to a breakpoint -/

theorem step_ok {r r' : Replayer} (h : r.step = (r', .ok)) :
    r'.trace = r.trace ∧ r'.position = r.position + 1 ∧ r.position < r.trace.len := by
  have hfst : r.step.1 = r' := congrArg Prod.fst h
  unfold step at h hfst
  split at h <;> rename_i hend
  · cases (Prod.mk.inj h).2
  · rw [if_neg hend, stopAtBreakpoint_fst] at hfst
    rw [← hfst]
    refine ⟨?_, ?_, Nat.lt_of_not_le hend⟩ <;>
      (simp only [applyEventToState]; split <;> rfl)

def runToBreakpoint (r : Replayer) : Replayer × StepResult :=
  match _h : r.step with
  | (r', .ok) => r'.runToBreakpoint
  | result => result
termination_by r.trace.len - r.position
decreasing_by
  obtain ⟨htrace, hposition, hbound⟩ := step_ok _h
  rw [htrace, hposition]
  omega

theorem stepBack_ok {r r' : Replayer} (h : r.stepBack = (r', .ok)) : r'.position < r.position := by
  unfold stepBack at h
  split at h <;> rename_i hzero
  · cases (Prod.mk.inj h).2
  · rw [← (Prod.mk.inj h).1]
    exact Nat.sub_one_lt hzero

def runBackToBreakpoint (r : Replayer) : Replayer × StepResult :=
  match _h : r.stepBack with
  | (r', .ok) =>
    match r'.checkBreakpoints with
    | some index => (r', .hitBreakpoint index)
    | none => r'.runBackToBreakpoint
  | result => result
termination_by r.position
decreasing_by exact stepBack_ok _h

/-! ### Sequences of operations -/

inductive Operation where
  | step
  | stepBack
  | gotoPosition (target : Nat)
  | gotoBlock (height : UInt64)
  | gotoTx (txId : FixedBytes 32)
  | runToBreakpoint
  | runBackToBreakpoint
  | reset
  | addBreakpoint (breakpoint : Breakpoint)
  | removeBreakpoint (index : Nat)
  | clearBreakpoints

def perform : Operation → Replayer
  | .step => r.step.1
  | .stepBack => r.stepBack.1
  | .gotoPosition target => (r.gotoPosition target).1
  | .gotoBlock height => (r.gotoBlock height).1
  | .gotoTx txId => (r.gotoTx txId).1
  | .runToBreakpoint => r.runToBreakpoint.1
  | .runBackToBreakpoint => r.runBackToBreakpoint.1
  | .reset => r.reset
  | .addBreakpoint breakpoint => (r.addBreakpoint breakpoint).1
  | .removeBreakpoint index => (r.removeBreakpoint index).1
  | .clearBreakpoints => r.clearBreakpoints

theorem perform_invariant {Inv : Replayer → Prop}
    (hmoves : ∀ {r r' : Replayer}, Moves r r' → Inv r → Inv r') {r : Replayer} (hr : Inv r)
    (operation : Operation) : Inv (r.perform operation) := by
  cases operation with
  | step => exact hmoves (moves_step r) hr
  | stepBack => exact hmoves (moves_stepBack r) hr
  | gotoPosition target => exact hmoves (moves_gotoPosition r target) hr
  | gotoBlock height => exact hmoves (moves_gotoFirst r _) hr
  | gotoTx txId => exact hmoves (moves_gotoFirst r _) hr
  | runToBreakpoint =>
    show Inv r.runToBreakpoint.1
    fun_induction runToBreakpoint r with
    | case1 r r' hstep ih =>
      have hmoved := hmoves (moves_step r) hr
      rw [hstep] at hmoved
      exact ih hmoved
    | case2 r hstop => exact hmoves (moves_step r) hr
  | runBackToBreakpoint =>
    show Inv r.runBackToBreakpoint.1
    fun_induction runBackToBreakpoint r with
    | case1 r r' hback index hhit =>
      have hmoved := hmoves (moves_stepBack r) hr
      rwa [hback] at hmoved
    | case2 r r' hback hmiss ih =>
      have hmoved := hmoves (moves_stepBack r) hr
      rw [hback] at hmoved
      exact ih hmoved
    | case3 r hstop => exact hmoves (moves_stepBack r) hr
  | reset => exact hmoves (r := r) (.restarts rfl rfl rfl) hr
  | addBreakpoint breakpoint => exact hmoves (r := r) (.stays rfl rfl rfl) hr
  | removeBreakpoint index => exact hmoves (moves_removeBreakpoint r index) hr
  | clearBreakpoints => exact hmoves (r := r) (.stays rfl rfl rfl) hr

/-- The current state is the initial state with the first `position` events applied. -/
def InStep : Prop := r.currentState.Same (r.trace.stateAfter r.position)

/-- The state computed for a position is the one after the events before it; at the beginning the
first event is applied all the same. -/
theorem stateAt_pred_same {trace : ExecutionTrace}
    (hfirst : ∀ event, trace.events.head? = some event → trace.initialState.Unaffected event)
    (position : Nat) : (trace.stateAt (position - 1)).Same (trace.stateAfter position) := by
  rw [ExecutionTrace.stateAt_eq]
  cases position with
  | succ position => exact .refl _
  | zero =>
    cases hevents : trace.events with
    | nil => simp [ExecutionTrace.stateAfter, hevents, StateSnapshot.Same.refl]
    | cons event events =>
      have hone : trace.stateAfter 1 = trace.initialState.applyEvent event := by
        simp [ExecutionTrace.stateAfter, hevents]
      rw [Nat.zero_sub, Nat.zero_add, hone]
      exact StateSnapshot.same_applyEvent_iff.mpr (hfirst event (by simp [hevents]))

theorem Moves.inStep {trace : ExecutionTrace} {r r' : Replayer}
    (hfirst : ∀ event, trace.events.head? = some event → trace.initialState.Unaffected event)
    (h : Moves r r') (hr : r.trace = trace ∧ r.InStep) : r'.trace = trace ∧ r'.InStep := by
  obtain ⟨rfl, hstep⟩ := hr
  unfold InStep at hstep ⊢
  cases h with
  | stays htrace hposition hstate =>
    rw [htrace, hposition, hstate]
    exact ⟨rfl, hstep⟩
  | advances htrace hbound hposition hstate =>
    rw [htrace, hposition, hstate, ExecutionTrace.stateAfter_succ hbound]
    exact ⟨rfl, hstep.applyEvent _⟩
  | jumps htrace hstate =>
    rw [htrace, hstate]
    exact ⟨rfl, stateAt_pred_same hfirst r'.position⟩
  | restarts htrace hposition hstate =>
    rw [htrace, hposition, hstate]
    exact ⟨rfl, .refl _⟩

/-- Whatever operations are performed on a trace, the current state is the initial state with
exactly the first `position` events applied, if and only if the first event of the trace, where
there is one, leaves the initial contents as they are. -/
theorem inStep_performAll_iff (trace : ExecutionTrace) :
    (∀ operations : List Operation, (operations.foldl perform (new trace)).InStep) ↔
      ∀ event, trace.events.head? = some event → trace.initialState.Unaffected event := by
  constructor
  · intro h event hevent
    obtain ⟨events, hevents⟩ := List.head?_eq_some_iff.mp hevent
    have hback : [.step, .stepBack].foldl perform (new trace) =
        { new trace with
          currentState := trace.initialState.applyEvent event
          history := [0] } := by
      simp [perform, new, step, stepBack, pushHistory, applyEventToState, stopAtBreakpoint_fst,
        ExecutionTrace.len, ExecutionTrace.stateAt, hevents]
    have hsame := h [.step, .stepBack]
    rw [hback] at hsame
    exact StateSnapshot.same_applyEvent_iff.mp hsame
  · intro hfirst operations
    have hinv : (operations.foldl perform (new trace)).trace = trace ∧
        (operations.foldl perform (new trace)).InStep := by
      induction operations using List.reverseRecOn with
      | nil => exact ⟨rfl, .refl _⟩
      | append_singleton operations operation ih =>
        rw [List.foldl_append]
        exact perform_invariant (fun hmoves => hmoves.inStep hfirst) ih operation
    exact hinv.2

/-- A trace whose first event writes under a key that the initial state does not have. -/
def writingTrace : ExecutionTrace where
  initialState := .empty
  events := [.stateChange [1] (some [2]) 0]

/-- One step forward and one back. -/
def thereAndBack : Replayer := [.step, .stepBack].foldl perform (new writingTrace)

/-- At position 0, the state has the entry of the first event. -/
theorem thereAndBack_not_inStep :
    thereAndBack.position = 0 ∧ thereAndBack.currentState.get [1] = some [2] ∧
      (thereAndBack.trace.stateAfter 0).get [1] = none := by
  decide

end Replayer

end Evolve.Debugger
