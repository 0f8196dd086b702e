import Mathlib
import Evolve.Stf.CallTree

/-! Atomicity of calls: a call of `doExec` that fails leaves nothing behind, whatever account code
ran inside it. -/

namespace Evolve

open Machine Borsh Effects

namespace ExecutionState

structure SameExceptMetrics (s s' : ExecutionState) : Prop where
  base : s'.baseStorage = s.baseStorage
  overlay : s'.overlay = s.overlay
  undoLog : s'.undoLog = s.undoLog
  events : s'.events = s.events
  uniqueObjects : s'.uniqueObjects = s.uniqueObjects

namespace SameExceptMetrics

theorem refl (s : ExecutionState) : SameExceptMetrics s s := ⟨rfl, rfl, rfl, rfl, rfl⟩

theorem trans {a b c : ExecutionState} (h₁ : SameExceptMetrics a b)
    (h₂ : SameExceptMetrics b c) : SameExceptMetrics a c :=
  ⟨h₂.base.trans h₁.base, h₂.overlay.trans h₁.overlay, h₂.undoLog.trans h₁.undoLog,
    h₂.events.trans h₁.events, h₂.uniqueObjects.trans h₁.uniqueObjects⟩

theorem rollback {s s' : ExecutionState} (h : s.Extends s') :
    SameExceptMetrics s (s.rollback s') :=
  ⟨h.base, rfl, rfl, rfl, rfl⟩

theorem lookup {s s' : ExecutionState} (h : SameExceptMetrics s s') : s'.lookup = s.lookup := by
  funext key
  rw [ExecutionState.lookup, ExecutionState.lookup, h.overlay, h.base]

end SameExceptMetrics

end ExecutionState

section

variable (host : Host) (fuel : Nat) (invoker : Invoker)

/-- A failed call of `doExec` changes the metrics of the execution state only. -/
theorem wp_doExec_sameExceptMetrics (target : AccountId) (data : InvokeRequest)
    (funds : List FungibleAsset) (w : World) :
    Exec.wp (environment host fuel invoker (.doExec target data funds)) (fun r w' =>
      ∀ e, r = .error e → w.storage.SameExceptMetrics w'.storage) w := by
  cases fuel with
  | zero => exact Exec.wp_outOfFuel.mpr trivial
  | succ fuel =>
    have rule := extends_stepRule.callRule host
    have hnested := rule.keeps_environment (fun _ _ h => h) fuel
    refine Exec.wp_mono ?_ (rule.wp_doExec hnested (fun _ _ h => h) invoker target data funds w)
    rintro r w' h e rfl
    rcases h with rfl | ⟨w₁, h, rfl⟩
    · exact .refl _
    · exact .rollback h

/-- For all account codes, states, frames, targets, requests and funds: `doExec` never panics, and
if it returns an error then the overlay, with its tombstones, the events and the counter of unique
objects are those before the call. -/
theorem doExec_atomic (target : AccountId) (data : InvokeRequest) (funds : List FungibleAsset)
    (w : World) :
    environment host fuel invoker (.doExec target data funds) w ≠ .panic ∧
      ∀ e w', environment host fuel invoker (.doExec target data funds) w = .done (.error e, w') →
        w'.storage.overlay = w.storage.overlay ∧ w'.storage.events = w.storage.events ∧
          w'.storage.uniqueObjects = w.storage.uniqueObjects := by
  have h := wp_doExec_sameExceptMetrics host fuel invoker target data funds w
  refine ⟨Exec.wp_ne_panic h, fun e w' hrun => ?_⟩
  have hsame := Exec.wp_done h hrun e rfl
  exact ⟨hsame.overlay, hsame.events, hsame.uniqueObjects⟩

end

/-! ### A second transfer that fails -/

/-- Code that stores a byte and emits an event on every call. -/
def recordingCode : AccountCode where
  init _ _ := Prog.ofExcept (InvokeResponse.new ())
  execute _ _ := do
    let request ← Prog.ofExcept (InvokeRequest.new (StorageSetRequest.mk [7] [1]))
    let _ ← Prog.request (EnvOp.doExec storageAccountId request [])
    let _ ← Prog.request (EnvOp.emitEvent "recorded" [])
    Prog.ofExcept (InvokeResponse.new ())
  query _ _ := Prog.throw errUnknownFunction

def refusingCode : AccountCode where
  init _ _ := Prog.throw errUnauthorized
  execute _ _ := Prog.throw errUnauthorized
  query _ _ := Prog.throw errUnauthorized

def idleCode : AccountCode where
  init _ _ := Prog.ofExcept (InvokeResponse.new ())
  execute _ _ := Prog.ofExcept (InvokeResponse.new ())
  query _ _ := Prog.ofExcept (InvokeResponse.new ())

def sampleHost : Host where
  withCode codeId :=
    .ok (if codeId = "recording" then some recordingCode
      else if codeId = "refusing" then some refusingCode
      else if codeId = "idle" then some idleCode else none)
  isAlphanumeric c := c.isAlphanum

def sampleStore : ReadonlyKV := fun key =>
  if key = accountCodeIdentifierKey (.fromU64 10) then (Message.new "recording").map some
  else if key = accountCodeIdentifierKey (.fromU64 11) then (Message.new "refusing").map some
  else .ok none

def sampleWorld : World := ⟨.new sampleStore, .infinite, []⟩

def sampleCall : Run InvokeResponse :=
  environment sampleHost 3 (.newForBeginBlock ⟨1, 0⟩)
    (.doExec (.fromU64 10) (Invoker.initRequest []) [⟨.fromU64 10, 5⟩, ⟨.fromU64 11, 5⟩])

/-- The first transfer writes and emits, the second fails, and nothing of the first is left. -/
theorem doExec_atomic_second_transfer_fails :
    ∃ w', sampleCall sampleWorld = .done (.error errUnauthorized, w') ∧
      w'.storage.metrics.storageWrites = 1 ∧ w'.storage.metrics.eventsEmitted = 1 ∧
      w'.storage.overlay = ∅ ∧ w'.storage.events = [] ∧ w'.storage.uniqueObjects = 0 := by
  have hends : Exec.Ends sampleCall (fun r w' => r = .error errUnauthorized ∧
      w'.storage.metrics.storageWrites = 1 ∧ w'.storage.metrics.eventsEmitted = 1)
      sampleWorld := by decide +kernel
  obtain ⟨r, w', hrun, rfl, hwrites, hevents⟩ := hends.exists
  exact ⟨w', hrun, hwrites, hevents, (doExec_atomic _ _ _ _ _ _ _).2 _ w' hrun⟩

end Evolve
