import Mathlib
import Evolve.Stf.Congruence
import Evolve.Stf.Atomicity

/-! Traces without what was rolled back, and the rule for them: a relation between the first world,
the trace and the last world that the single actions keep, and that holds of an empty trace when
nothing but the metrics has changed, is kept by every call and by every part of a block. -/

namespace Evolve

open Machine Borsh Effects

namespace Traced

def fails {α : Type} (m : Traced α) (w : World) : Bool :=
  match m.exec w with
  | .done (.error _, _) => true
  | _ => false

/-- A call that is rolled back leaves the trace, unless it has a pinned entry.  Up to its first
pinned entry, a trace lists what is in force when that entry is made. -/
def prune (pin : Action → Bool) (op : EnvOp) (m : Traced op.Ans) : Traced op.Ans where
  exec := m.exec
  log w := if op.isExec && fails m w && !(m.log w).any pin then [] else m.log w

theorem prune_eq {pin : Action → Bool} {op : EnvOp} {m : Traced op.Ans} (hop : op.isExec = false) :
    prune pin op m = m := by
  refine Logged.ext rfl (funext fun w => ?_)
  simp [prune, hop]

end Traced

def prunedEnvironment (host : Host) (pin : Action → Bool) : Nat → TracedEnvironment
  | 0 => fun _ _ _ => Logged.outOfFuel
  | fuel + 1 => fun stack frame op =>
    Traced.prune pin op (Traced.answer host (prunedEnvironment host pin fuel) stack frame op)

theorem exec_prunedEnvironment (host : Host) (pin : Action → Bool) (fuel : Nat) (stack : Stack)
    (frame : Invoker) (op : EnvOp) :
    (prunedEnvironment host pin fuel stack frame op).exec = environment host fuel frame op := by
  induction fuel generalizing stack frame op with
  | zero => rfl
  | succ fuel ih => exact Traced.exec_answer host ih stack frame op

namespace BlockPart

variable {Tx Block : Type} [Transaction Tx] {host : Host} {fuel : Nat} {stf : Stf Tx Block}

/-- The parts of a block with a trace of what is in force. -/
def pruned (host : Host) (fuel : Nat) (pin : Action → Bool) (stf : Stf Tx Block)
    (part : BlockPart Tx Block) : Traced part.Ans :=
  part.tracedWith host (prunedEnvironment host pin fuel) stf

theorem exec_pruned {pin : Action → Bool} (part : BlockPart Tx Block) :
    (part.pruned host fuel pin stf).exec = part.run host fuel stf :=
  part.exec_tracedWith (exec_prunedEnvironment host pin fuel)

end BlockPart

theorem emitEvent_cases (frame : Invoker) (name : String) (data : Bytes) (w : World) :
    (∃ w', frame.emitEvent name data w = .done (.ok (), w') ∧
      w'.storage.events = w.storage.events ++ [⟨frame.whoami, name, data⟩] ∧
      w'.storage.uniqueObjects = w.storage.uniqueObjects) ∨
    ∃ e, frame.emitEvent name data w = .done (.error e, w) := by
  unfold Invoker.emitEvent
  rw [Exec.bind_apply]
  cases hvalid : validateEvent name data with
  | error e => exact .inr ⟨e, rfl⟩
  | ok _ =>
    by_cases hfull : w.storage.events.length ≥ maxEventsPerExecution
    · exact .inr ⟨errTooManyEvents, update_error (if_pos hfull)⟩
    · exact .inl ⟨_, update_ok (if_neg hfull), rfl, rfl⟩

/-! ### Operations that emit nothing and count nothing -/

structure World.Mute (w w' : World) : Prop where
  events : w'.storage.events = w.storage.events
  uniqueObjects : w'.storage.uniqueObjects = w.storage.uniqueObjects

namespace World.Mute

theorem refl (w : World) : w.Mute w := ⟨rfl, rfl⟩

theorem trans {a b c : World} (h₁ : a.Mute b) (h₂ : b.Mute c) : a.Mute c :=
  ⟨h₂.events.trans h₁.events, h₂.uniqueObjects.trans h₁.uniqueObjects⟩

theorem queryRule : QueryRule World.Mute where
  refl := refl
  trans _ _ _ := trans
  countRead _ := ⟨rfl, rfl⟩
  charge _ _ w := wp_charge (fun _ _ => ⟨rfl, rfl⟩) fun _ _ => refl w

theorem keeps_set (key : Bytes) (value : Message) : Exec.Keeps World.Mute (Run.set key value) := by
  refine fun w => wp_update (fun s h => ?_) fun _ _ => refl w
  obtain ⟨rfl, -⟩ := ExecutionState.write_ok (ExecutionState.set_ok h).2.2
  exact ⟨rfl, rfl⟩

theorem keeps_remove (key : Bytes) : Exec.Keeps World.Mute (Run.remove key) := by
  refine fun w => wp_update (fun s h => ?_) fun _ _ => refl w
  obtain ⟨rfl, -⟩ := ExecutionState.write_ok (ExecutionState.remove_ok h).2
  exact ⟨rfl, rfl⟩

end World.Mute

/-! ### The rule -/

/-- What a relation must allow to be kept by calls that leave the trace if they are rolled back. -/
structure PruneRule (pin : Action → Bool) (Scope : ExecutionScope → Prop)
    (R : World → List Action → Option World → Prop) : Prop extends Logged.Composes R where
  unended : ∀ {w : World} {l : List Action} {last : Option World}, R w l last → R w l none
  mute : ∀ {w w' : World}, w.Mute w' → R w [] (some w')
  begins : ∀ {activity : Activity} (stack : Stack) (w : World), activity.nests = true →
    R w [.begins (activity :: stack) w] (some w)
  write : ∀ (stack : Stack) {w w' : World} (key : Bytes) (entry : Option Message), w.Mute w' →
    R w [.write stack w w' key entry] (some w')
  emitEvent : ∀ (stack : Stack) (frame : Invoker) (name : String) (data : Bytes),
    Logged.Keeps R (Traced.within (.call frame (.emitEvent name data)) stack fun _ =>
      Logged.lift (frame.emitEvent name data))
  uniqueId : ∀ (stack : Stack) {frame : Invoker}, Scope frame.scope →
    Logged.Keeps R (Traced.within (.call frame .uniqueId) stack fun _ => Logged.lift frame.uniqueId)
  undone : ∀ {w : World} {l : List Action} {w' : World}, w.storage.SameExceptMetrics w'.storage →
    R w l none → R w (if l.any pin then l else []) (some w')

namespace PruneRule

variable {pin : Action → Bool} {Scope : ExecutionScope → Prop}
  {R : World → List Action → Option World → Prop} (rule : PruneRule pin Scope R) {host : Host}
  {fuel : Nat}
include rule

theorem keeps_lift {α : Type} {m : Run α} (hm : Exec.Keeps World.Mute m) :
    Logged.Keeps R (Logged.lift m) := by
  intro w
  have hw := hm w
  unfold Exec.wp at hw
  unfold Logged.last
  dsimp only [Logged.lift]
  rcases h : m w with ⟨⟨r, w'⟩⟩ | _ | _ <;> rw [h] at hw
  · exact rule.mute hw
  · exact rule.unended (rule.refl w)
  · exact hw.elim

theorem keeps_noteWrite {stack : Stack} {key : Bytes} {entry : Option Message} {m : Run Unit}
    (hm : Exec.Keeps World.Mute m) :
    Logged.Keeps R (Logged.observe (Traced.noteWrite stack key entry) m) := by
  intro w
  have hw := hm w
  unfold Exec.wp at hw
  unfold Logged.last
  dsimp only [Logged.observe]
  rcases h : m w with ⟨⟨e | _, w'⟩⟩ | _ | _ <;> rw [h] at hw
  · exact rule.mute hw
  · exact rule.write stack key entry hw
  · exact rule.unended (rule.refl w)
  · exact hw.elim

theorem congruence : Congruence Scope fun _ m _ => Logged.Keeps R m where
  ofExcept r := rule.keeps_ofExcept r
  bind hm hf := rule.keeps_bind hm hf
  attempt hm := hm.attempt
  begins stack hnests := Logged.Keeps.mark fun w => rule.begins stack w hnests
  get key := rule.keeps_lift (World.Mute.queryRule.keeps_get key)
  charge charge size := rule.keeps_lift (World.Mute.queryRule.charge charge size)
  set _ key value := rule.keeps_noteWrite (World.Mute.keeps_set key value)
  chargedSet _ key value := rule.keeps_noteWrite (World.Mute.queryRule.keeps_bind
    (World.Mute.queryRule.charge _ _) fun _ => World.Mute.keeps_set key value)
  chargedRemove _ key := rule.keeps_noteWrite (World.Mute.queryRule.keeps_bind
    (World.Mute.queryRule.charge _ _) fun _ => World.Mute.keeps_remove key)
  readStorage hf := rule.keeps_bind (rule.keeps_lift fun w => .refl w) fun s => hf s s
  note _ _ := rule.keeps_lift fun _ => ⟨rfl, rfl⟩
  gasUsed := rule.keeps_lift fun w => .refl w
  emitEvent := rule.emitEvent
  uniqueId := rule.uniqueId

/-- A call of `doExec` keeps the relation up to its rollback, and to its end if it succeeds. -/
theorem doExec_log {nested : TracedEnvironment}
    (hexec : ∀ stack frame op, (nested stack frame op).exec = environment host fuel frame op)
    (hnested : ∀ (stack : Stack) {frame : Invoker} (op : EnvOp), Scope frame.scope →
      Logged.Keeps R (nested stack frame op))
    {invoker : Invoker} (hscope : Scope invoker.scope) (target : AccountId) (data : InvokeRequest)
    (funds : List FungibleAsset) (stack : Stack) (w : World) :
    R w ((Traced.doExec host nested invoker target data funds stack).log w) none ∧
      ∀ response w', (Traced.doExec host nested invoker target data funds stack).exec w =
          .done (.ok response, w') →
        R w ((Traced.doExec host nested invoker target data funds stack).log w) (some w') := by
  have hstart : R w [] (some w.checkpointed) := rule.mute ⟨rfl, rfl⟩
  have hbody : Logged.Keeps R (Traced.execBody host nested invoker target data funds stack) :=
    rule.congruence.execBody hnested hscope target data funds stack
  replace hbody := hbody w.checkpointed
  rw [Traced.doExec_eq]
  split
  · exact ⟨rule.unended (rule.refl w), by rintro response w' ⟨⟩⟩
  · have hall := rule.trans (l := []) hstart hbody
    refine ⟨rule.unended hall, fun response w' h => ?_⟩
    rcases orRollback_done (Traced.extends_execBody _ _ _ _ _ hexec) h with
      ⟨_, ⟨⟩, hok⟩ | ⟨e, w₁, ⟨⟩, -⟩
    rw [Logged.last_eq_some hok] at hall
    exact hall

theorem keeps_prune_doExec {nested : TracedEnvironment}
    (hexec : ∀ stack frame op, (nested stack frame op).exec = environment host fuel frame op)
    (hnested : ∀ (stack : Stack) {frame : Invoker} (op : EnvOp), Scope frame.scope →
      Logged.Keeps R (nested stack frame op))
    {frame : Invoker} (hscope : Scope frame.scope) (target : AccountId) (data : InvokeRequest)
    (funds : List FungibleAsset) (stack : Stack) :
    Logged.Keeps R (Traced.prune pin (.doExec target data funds)
      (Traced.answer host nested stack frame (.doExec target data funds))) := by
  intro w
  have hbegins : R w [.begins (.call frame (.doExec target data funds) :: stack) w] (some w) :=
    rule.begins stack w rfl
  obtain ⟨hopen, hdone⟩ := rule.doExec_log hexec hnested hscope target data funds
    (.call frame (.doExec target data funds) :: stack) w
  replace hopen : R w ((Traced.answer host nested stack frame (.doExec target data funds)).log w)
      none := rule.trans hbegins hopen
  have hsame : Exec.wp (Traced.answer host nested stack frame (.doExec target data funds)).exec
      (fun r w' => ∀ e, r = .error e → w.storage.SameExceptMetrics w'.storage) w := by
    rw [Traced.exec_answer host hexec]
    exact wp_doExec_sameExceptMetrics host (fuel + 1) frame target data funds w
  unfold Exec.wp at hsame
  unfold Logged.last Traced.prune Traced.fails
  dsimp only [EnvOp.isExec, Bool.true_and]
  rcases hrun : (Traced.answer host nested stack frame (.doExec target data funds)).exec w with
    ⟨⟨e | response, w'⟩⟩ | _ | _ <;> rw [hrun] at hsame
  · have hundone := rule.undone (hsame e rfl) hopen
    generalize (Traced.answer host nested stack frame (.doExec target data funds)).log w = l
      at hundone
    dsimp only
    cases hany : l.any pin <;> rw [hany] at hundone <;> exact hundone
  · exact rule.trans hbegins (hdone response w' hrun)
  · exact hopen
  · exact hopen

/-- However calls are nested and fail, the relation is kept. -/
theorem keeps_call (stack : Stack) {frame : Invoker} (op : EnvOp) (hscope : Scope frame.scope) :
    Logged.Keeps R (prunedEnvironment host pin fuel stack frame op) := by
  induction fuel generalizing stack frame op with
  | zero => exact fun w => rule.unended (rule.refl w)
  | succ fuel ih =>
    cases hop : op.isExec with
    | false =>
      change Logged.Keeps R (Traced.prune pin op _)
      rw [Traced.prune_eq hop]
      exact rule.congruence.answer ih hscope stack hop
    | true =>
      cases op with
      | doExec target data funds =>
        exact rule.keeps_prune_doExec (exec_prunedEnvironment host pin fuel) ih hscope _ _ _ _
      | doQuery target data => cases hop
      | emitEvent name data => cases hop
      | uniqueId => cases hop

theorem keeps_part {Tx Block : Type} [Transaction Tx] {stf : Stf Tx Block}
    (popEvents : Logged.Keeps R (Logged.lift Run.popEvents)) (part : BlockPart Tx Block)
    (hscope : Scope part.scope) : Logged.Keeps R (part.pruned host fuel pin stf) :=
  rule.congruence.part rule.keeps_call popEvents part hscope

end PruneRule

/-! ### Blocks -/

section

variable {Tx Block : Type} [Transaction Tx] [BlockTrait Block Tx]
variable (host : Host) (fuel : Nat) (stf : Stf Tx Block) (block : Block)

/-- A block with a trace of what was not rolled back. -/
def Traced.retainedBlock : Traced (BlockResult × List Tx) :=
  Parts.applyBlock (BlockPart.pruned host fuel (fun _ => false) stf) stf block

end

end Evolve
