import Mathlib
import Evolve.Stf.Retained
import Evolve.Stf.Block

/-! Events.  An event that is emitted is kept by the state until the runtime pops it, and a call
that is rolled back takes its events back; so the results of a block report the events that were
emitted and not rolled back, except those of senders that were bootstrapped. -/

namespace Evolve

open Machine Borsh Effects

/-! ### Emissions -/

/-- The event that an entry of a trace stands for: an emission that is not refused. -/
def Action.event : Action → Option Event
  | .begins (.call frame (.emitEvent name data) :: _) w =>
    match frame.emitEvent name data w with
    | .done (.ok _, _) => some ⟨frame.whoami, name, data⟩
    | _ => none
  | _ => none

def emitted (l : List Action) : List Event := l.filterMap Action.event

theorem emitted_append (l l' : List Action) : emitted (l ++ l') = emitted l ++ emitted l' :=
  List.filterMap_append

theorem emitted_flatMap {α : Type} (f : α → List Action) (l : List α) :
    emitted (l.flatMap f) = (l.map fun a => emitted (f a)).flatten := by
  induction l with
  | nil => rfl
  | cons a l ih => rw [List.flatMap_cons, emitted_append, ih, List.map_cons, List.flatten_cons]

/-- What a computation does with the events: it appends those that it emits. -/
def Emits (w : World) (l : List Action) (last : Option World) : Prop :=
  ∀ w' ∈ last, w'.storage.events = w.storage.events ++ emitted l

namespace Emits

theorem composes : Logged.Composes Emits where
  refl w := by
    rintro _ ⟨⟩
    exact (List.append_nil _).symm
  trans a l b l' o h₁ h₂ := by
    intro w' hw'
    rw [h₂ w' hw', h₁ b rfl, emitted_append, List.append_assoc]

theorem silent {w w' : World} {l : List Action} (hl : emitted l = [])
    (hsame : w'.storage.events = w.storage.events) : Emits w l (some w') := by
  rintro _ ⟨⟩
  rw [hl, List.append_nil]
  exact hsame

theorem emitEvent (stack : Stack) (frame : Invoker) (name : String) (data : Bytes) :
    Logged.Keeps Emits (Traced.within (.call frame (.emitEvent name data)) stack fun _ =>
      Logged.lift (frame.emitEvent name data)) := by
  intro w
  have hlog : (Traced.within (.call frame (.emitEvent name data)) stack fun _ =>
      (Logged.lift (frame.emitEvent name data) : Traced Unit)).log w =
      [.begins (.call frame (.emitEvent name data) :: stack) w] := rfl
  have hlast : ∀ {r : SdkResult Unit} {w' : World}, frame.emitEvent name data w = .done (r, w') →
      (Traced.within (.call frame (.emitEvent name data)) stack fun _ =>
        (Logged.lift (frame.emitEvent name data) : Traced Unit)).last w = some w' :=
    fun hdone => Logged.last_eq_some hdone
  rcases emitEvent_cases frame name data w with ⟨w', hdone, hevents, -⟩ | ⟨e, hdone⟩
  · have hemitted : emitted [.begins (.call frame (.emitEvent name data) :: stack) w] =
        [⟨frame.whoami, name, data⟩] := by
      simp [emitted, Action.event, hdone]
    rw [hlog, hlast hdone]
    rintro _ ⟨⟩
    rw [hemitted, hevents]
  · rw [hlog, hlast hdone]
    exact silent (by simp [emitted, Action.event, hdone]) rfl

/-- However calls are nested and fail, the events that are not rolled back are appended. -/
theorem pruneRule : PruneRule (fun _ => false) (fun _ => True) Emits where
  toComposes := composes
  unended _ := by rintro _ ⟨⟩
  mute h := silent rfl h.events
  begins {activity} stack w hnests := by
    refine silent ?_ rfl
    cases activity with
    | call frame op =>
      cases op with
      | emitEvent name data => cases hnests
      | _ => rfl
    | _ => rfl
  write _ _ _ _ _ h := silent rfl h.events
  emitEvent := emitEvent
  uniqueId stack _ _ := composes.keeps_bind (Logged.Keeps.mark fun _ => silent rfl rfl)
    fun _ w => silent rfl rfl
  undone {w l w'} hsame _ := by
    rw [if_neg (by simp)]
    exact silent rfl hsame.events

end Emits

/-! ### What is reported -/

/-- The computation pops the events that were there before it and those that it emits. -/
def Reports {α : Type} (events : α → List Event) (m : Traced α) : Prop :=
  ∀ {w w' : World} {a : α}, m.exec w = .done (.ok a, w') →
    events a = w.storage.events ++ emitted (m.log w) ∧ w'.storage.events = []

namespace Reports

variable {α β : Type} {events : α → List Event}

theorem bind {m : Traced β} {f : β → Traced α} (hm : Logged.Keeps Emits m)
    (hf : ∀ b, Reports events (f b)) : Reports events (m >>= f) := by
  intro w w' a h
  rcases Exec.bind_done.mp h with ⟨b, w₁, hfirst, hrest⟩ | ⟨_, _, ⟨⟩⟩
  obtain ⟨hevents, hempty⟩ := hf b hrest
  have hkept := hm.done hfirst w₁ rfl
  refine ⟨?_, hempty⟩
  rw [Logged.log_bind_ok hfirst, emitted_append, hevents, hkept, List.append_assoc]

theorem popEvents : Reports id (Logged.lift Run.popEvents) := by
  rintro w _ _ ⟨⟩
  exact ⟨(List.append_nil _).symm, rfl⟩

theorem txResult (response : SdkResult InvokeResponse) :
    Reports TxResult.events (Logged.lift (Stf.txResult response)) := by
  rintro w _ _ ⟨⟩
  exact ⟨(List.append_nil _).symm, rfl⟩

end Reports

/-- The computation leaves no event, unless it fails; then it leaves those that it emits. -/
def Clears {α : Type} (m : Traced α) : Prop :=
  ∀ {w w' : World} {r : SdkResult α}, m.exec w = .done (r, w') →
    w'.storage.events = if r.isOk then [] else w.storage.events ++ emitted (m.log w)

namespace Clears

variable {α β : Type}

theorem bind {m : Traced β} {f : β → Traced α} (hm : Logged.Keeps Emits m)
    (hf : ∀ b, Clears (f b)) : Clears (m >>= f) := by
  intro w w' r h
  rcases Exec.bind_done.mp h with ⟨b, w₁, hfirst, hrest⟩ | ⟨e, hfirst, rfl⟩
  · have hkept := hm.done hfirst w₁ rfl
    rw [Logged.log_bind_ok hfirst, emitted_append, hf b hrest, hkept, List.append_assoc]
  · rw [Logged.log_bind_error hfirst]
    exact hm.done hfirst w' rfl

theorem popEvents (a : α) : Clears (Logged.lift Run.popEvents >>= fun _ => pure a) := by
  rintro w _ _ ⟨⟩
  rfl

end Clears

section

variable {Tx Block : Type} [Transaction Tx] (host : Host) (fuel : Nat) (stf : Stf Tx Block)

theorem Emits.runWith {α : Type} (phase : Phase) (frame : Invoker) (p : Env → Program α) :
    Logged.Keeps Emits
      (Traced.runWith (prunedEnvironment host (fun _ => false) fuel) phase frame p) :=
  Emits.pruneRule.congruence.runWith Emits.pruneRule.keeps_call phase trivial p

theorem Emits.meter (gasCounter : GasCounter) :
    Logged.Keeps Emits (Logged.lift (Run.meter gasCounter)) := fun _ => .silent rfl rfl

/-! ### Transactions -/

variable (tx : Tx) (context : BlockContext)

/-- The sender of a transaction, with a trace of what was not rolled back. -/
def Traced.retainedSender : Traced AccountId := do
  let parts := BlockPart.pruned host fuel (fun _ => false) stf
  let sender ← parts (.resolveSender tx context)
  parts (.bootstrapSender tx sender context)
  pure sender

/-- What follows in a transaction once its sender is there. -/
def Traced.retainedRest (sender : AccountId) : Traced TxResult := do
  let parts := BlockPart.pruned host fuel (fun _ => false) stf
  match ← Logged.attempt (parts (.validateTx tx context)) with
  | .error err => Logged.lift (Stf.txResult (.error err))
  | .ok _ =>
    let response ← Logged.attempt (parts (.executeTx tx sender context))
    Logged.lift (Stf.txResult response)

theorem Traced.retainedTx_eq :
    Parts.meteredTx (BlockPart.pruned host fuel (fun _ => false) stf) tx context =
      Logged.attempt (retainedSender host fuel stf tx context) >>= fun
        | .error err => Logged.lift (Stf.txResult (.error err))
        | .ok sender => retainedRest host fuel stf tx context sender := by
  have hadmitted : Parts.admitTx (BlockPart.pruned host fuel (fun _ => false) stf) tx context =
      retainedSender host fuel stf tx context >>= fun sender =>
        (BlockPart.validateTx tx context).pruned host fuel (fun _ => false) stf >>= fun _ =>
          pure sender := by
    simp only [Parts.admitTx, retainedSender, bind_assoc, pure_bind]
  unfold Parts.meteredTx
  rw [hadmitted, Logged.attempt_bind]
  refine congrArg (Logged.attempt _ >>= ·) (funext fun r => ?_)
  cases r with
  | error err => rfl
  | ok sender =>
    unfold retainedRest
    dsimp only
    rw [Logged.attempt_bind]
    refine congrArg (Logged.attempt _ >>= ·) (funext fun r => ?_)
    cases r <;> rfl

/-- The sender of a transaction is bootstrapped. -/
def bootstraps (r : SdkResult AccountId) : Bool :=
  (Transaction.senderBootstrap tx).isSome && r.isOk

/-- Once a sender has been bootstrapped no event is left, also none from resolving it. -/
theorem retainedSender_events {w w' : World} {r : SdkResult AccountId}
    (h : (Traced.retainedSender host fuel stf tx context).exec w = .done (r, w')) :
    w'.storage.events =
      if bootstraps tx r then []
      else w.storage.events ++
        emitted ((Traced.retainedSender host fuel stf tx context).log w) := by
  have hresolve : Logged.Keeps Emits ((BlockPart.resolveSender tx context).pruned host fuel
      (fun _ => false) stf) := Emits.runWith host fuel _ _ _
  cases hbootstrap : Transaction.senderBootstrap tx with
  | none =>
    have hkeeps : Logged.Keeps Emits (Traced.retainedSender host fuel stf tx context) := by
      refine Emits.composes.keeps_bind hresolve fun sender => ?_
      refine Emits.composes.keeps_bind ?_ fun _ => Emits.composes.keeps_pure _
      show Logged.Keeps Emits (Traced.bootstrapWith _ _ _ _ _)
      unfold Traced.bootstrapWith
      rw [hbootstrap]
      exact Emits.composes.keeps_pure _
    rw [bootstraps, hbootstrap]
    exact hkeeps.done h w' rfl
  | some bootstrap =>
    have hclears : Clears (Traced.retainedSender host fuel stf tx context) := by
      refine Clears.bind hresolve fun sender => ?_
      show Clears (Traced.bootstrapWith _ _ _ _ _ >>= _)
      unfold Traced.bootstrapWith
      rw [hbootstrap]
      dsimp only
      rw [bind_assoc]
      refine Clears.bind (Emits.pruneRule.congruence.within rfl
        (Emits.pruneRule.congruence.registerAccountAtId Emits.pruneRule.keeps_call trivial
          _ _ _ _)) fun _ => ?_
      rw [bind_assoc]
      refine Clears.bind (Emits.runWith host fuel _ _ _) fun _ => ?_
      rw [bind_assoc]
      exact Clears.popEvents sender
    rw [bootstraps, hbootstrap]
    exact hclears h

theorem reports_retainedRest (sender : AccountId) :
    Reports TxResult.events (Traced.retainedRest host fuel stf tx context sender) := by
  refine Reports.bind (Emits.runWith host fuel _ _ _).attempt fun validated => ?_
  cases validated with
  | error err => exact Reports.txResult _
  | ok _ =>
    refine Reports.bind (Logged.Keeps.attempt ?_) fun response => Reports.txResult response
    exact Emits.pruneRule.congruence.executeWith Emits.pruneRule.keeps_call trivial sender context

/-- The trace of a transaction without what was rolled back, cut where its sender is there. -/
structure TxTrace where
  sender : List Action
  bootstrapped : Bool
  rest : List Action

namespace TxTrace

def actions (trace : TxTrace) : List Action := trace.sender ++ trace.rest

/-- What the result of the transaction is about. -/
def reported (trace : TxTrace) : List Action :=
  if trace.bootstrapped then trace.rest else trace.sender ++ trace.rest

end TxTrace

def traceTx (w : World) : TxTrace where
  sender := (Traced.retainedSender host fuel stf tx context).log (stf.metered tx w)
  bootstrapped :=
    match (Traced.retainedSender host fuel stf tx context).exec (stf.metered tx w) with
    | .done (r, _) => bootstraps tx r
    | _ => false
  rest :=
    match (Traced.retainedSender host fuel stf tx context).exec (stf.metered tx w) with
    | .done (.ok sender, w₁) => (Traced.retainedRest host fuel stf tx context sender).log w₁
    | _ => []

/-- The trace of a transaction is that of its parts. -/
theorem traceTx_actions (w : World) :
    (traceTx host fuel stf tx context w).actions =
      (Parts.applyTx (BlockPart.pruned host fuel (fun _ => false) stf) stf tx context).log w := by
  have hlog : (Parts.applyTx (BlockPart.pruned host fuel (fun _ => false) stf) stf tx context).log
      w = (Parts.meteredTx (BlockPart.pruned host fuel (fun _ => false) stf) tx context).log
        (stf.metered tx w) := rfl
  rw [hlog, Traced.retainedTx_eq, Logged.log_bind, Logged.exec_attempt, Exec.attempt,
    TxTrace.actions, traceTx]
  refine congrArg (_ ++ ·) ?_
  rcases (Traced.retainedSender host fuel stf tx context).exec (stf.metered tx w) with
    ⟨⟨(e | sender), w₁⟩⟩ | _ | _ <;> rfl

variable {host fuel stf tx context}

theorem applyTx_events {w w' : World} {result : TxResult} (hempty : w.storage.events = [])
    (h : stf.applyTx host fuel tx context w = .done (.ok result, w')) :
    result.events = emitted (traceTx host fuel stf tx context w).reported ∧
      w'.storage.events = [] := by
  have hmetered : (stf.metered tx w).storage.events = [] := hempty
  have hrun : (Parts.meteredTx (BlockPart.pruned host fuel (fun _ => false) stf) tx context).exec
      (stf.metered tx w) = .done (.ok result, w') := by
    rw [Parts.exec_meteredTx BlockPart.exec_pruned]
    exact h
  rw [Traced.retainedTx_eq] at hrun
  rcases Exec.bind_done.mp hrun with ⟨r, w₁, hsender, hrest⟩ | ⟨_, _, ⟨⟩⟩
  obtain ⟨_, hsender, ⟨⟩⟩ := Exec.attempt_done.mp hsender
  have hevents := retainedSender_events host fuel stf tx context hsender
  rw [hmetered, List.nil_append] at hevents
  unfold TxTrace.reported traceTx
  simp only [hsender]
  cases r with
  | error e =>
    obtain ⟨hresult, hleft⟩ := Reports.txResult _ hrest
    have hfailed : bootstraps tx (.error e) = false := Bool.and_false _
    refine ⟨?_, hleft⟩
    rw [hresult, hevents, hfailed]
    exact (emitted_append _ _).symm
  | ok sender =>
    obtain ⟨hresult, hleft⟩ := reports_retainedRest host fuel stf tx context sender hrest
    refine ⟨?_, hleft⟩
    rw [hresult, hevents]
    cases bootstraps tx (.ok sender) with
    | false => exact (emitted_append _ _).symm
    | true => rfl

end

/-! ### Blocks -/

section

variable {Tx Block : Type} [Transaction Tx] (host : Host) (fuel : Nat) (stf : Stf Tx Block)

/-- The traces of transactions that are applied one after the other. -/
def traceTxs (context : BlockContext) : List Tx → World → List TxTrace
  | [], _ => []
  | tx :: txs, w =>
    traceTx host fuel stf tx context w ::
      match stf.applyTx host fuel tx context w with
      | .done (_, w₁) => traceTxs context txs w₁
      | _ => []

/-- The trace of a block without what was rolled back, cut into the begin blocker, the transactions
that are executed and the end blocker. -/
structure BlockTrace where
  beginBlock : List Action
  txs : List TxTrace
  endBlock : List Action

namespace BlockTrace

def actions (trace : BlockTrace) : List Action :=
  trace.beginBlock ++ trace.txs.flatMap TxTrace.actions ++ trace.endBlock

def reported (trace : BlockTrace) : List Action :=
  trace.beginBlock ++ trace.txs.flatMap TxTrace.reported ++ trace.endBlock

end BlockTrace

def traceBlock [BlockTrait Block Tx] (block : Block) (w : World) : BlockTrace :=
  let parts := BlockPart.pruned host fuel (fun _ => false) stf
  let context := BlockTrait.context block
  let first := (Parts.doBeginBlock parts block).log w
  match stf.doBeginBlock host fuel block w with
  | .done (.ok _, w₁) =>
    match stf.applyTxs host fuel context (BlockTrait.gasLimit block) (BlockTrait.txs block).length
      (BlockTrait.txs block) .start w₁ with
    | .done (.ok p, w₂) =>
      ⟨first, traceTxs host fuel stf context p.executed w₁, (Parts.doEndBlock parts context).log w₂⟩
    | _ => ⟨first, [], []⟩
  | _ => ⟨first, [], []⟩

variable {host fuel stf}

theorem traceTxs_cons {context : BlockContext} {tx : Tx} {txs : List Tx} {w w₁ : World}
    {r : SdkResult TxResult} (run : stf.applyTx host fuel tx context w = .done (r, w₁)) :
    traceTxs host fuel stf context (tx :: txs) w =
      traceTx host fuel stf tx context w :: traceTxs host fuel stf context txs w₁ := by
  rw [traceTxs, run]

theorem log_applyTxs_cons {context : BlockContext} {limit : UInt64} {total : Nat} {tx : Tx}
    {txs : List Tx} {p : Stf.Progress Tx} {w w₁ : World} {result : TxResult}
    (fits : ¬ saturatingAdd p.cumulativeGas (Transaction.gasLimit tx) > limit)
    (run : stf.applyTx host fuel tx context w = .done (.ok result, w₁)) :
    (Parts.applyTxs (BlockPart.pruned host fuel (fun _ => false) stf) stf context limit total
        (tx :: txs) p).log w =
      (traceTx host fuel stf tx context w).actions ++
        if (p.push tx result).cumulativeGas ≥ limit then []
        else (Parts.applyTxs (BlockPart.pruned host fuel (fun _ => false) stf) stf context limit
          total txs (p.push tx result)).log w₁ := by
  have hexec : (Parts.applyTx (BlockPart.pruned host fuel (fun _ => false) stf) stf tx
      context).exec w = .done (.ok result, w₁) := by
    rw [Parts.exec_applyTx BlockPart.exec_pruned]
    exact run
  rw [Parts.applyTxs, if_neg fits, Logged.log_bind_ok hexec, traceTx_actions]
  dsimp only
  split <;> rfl

theorem Stf.Loop.events {block : BlockContext} {limit : UInt64} {total : Nat} {txs : List Tx}
    {p q : Progress Tx} {w w' : World} (h : Loop host fuel stf block limit total txs p w q w')
    (hempty : w.storage.events = []) :
    ∃ executed, q.executed = p.executed ++ executed ∧
      q.txResults.map TxResult.events = p.txResults.map TxResult.events ++
        (traceTxs host fuel stf block executed w).map (emitted ·.reported) ∧
      (Parts.applyTxs (BlockPart.pruned host fuel (fun _ => false) stf) stf block limit total txs
        p).log w = (traceTxs host fuel stf block executed w).flatMap TxTrace.actions ∧
      w'.storage.events = [] := by
  induction h with
  | nil p w => exact ⟨[], by simp, by simp [traceTxs], rfl, hempty⟩
  | skipped exceeds rest ih =>
    obtain ⟨executed, hexecuted, hresults, hlog, hleft⟩ := ih hempty
    refine ⟨executed, hexecuted, hresults, ?_, hleft⟩
    rw [Parts.applyTxs, if_pos exceeds]
    exact hlog
  | @last tx txs p result w w₁ fits run full =>
    obtain ⟨hevents, hleft⟩ := applyTx_events hempty run
    refine ⟨[tx], rfl, ?_, ?_, hleft⟩
    · rw [traceTxs_cons run]
      simp [Progress.stop, Progress.push, traceTxs, hevents]
    · rw [log_applyTxs_cons fits run, if_pos full, traceTxs_cons run]
      simp [traceTxs]
  | @executed tx txs p q result w w₁ w' fits run room rest ih =>
    obtain ⟨hevents, hleft⟩ := applyTx_events hempty run
    obtain ⟨executed, hexecuted, hresults, hlog, hleft⟩ := ih hleft
    refine ⟨tx :: executed, ?_, ?_, ?_, hleft⟩
    · rw [hexecuted, Progress.push, List.append_assoc, List.singleton_append]
    · rw [hresults, traceTxs_cons run]
      simp [Progress.push, hevents]
    · rw [log_applyTxs_cons fits run, if_neg room, traceTxs_cons run, hlog, List.flatMap_cons]

theorem reports_doEndBlock (context : BlockContext) :
    Reports id (Parts.doEndBlock (BlockPart.pruned host fuel (fun _ => false) stf) context) :=
  Reports.bind (Emits.meter _) fun _ =>
    Reports.bind (Emits.runWith host fuel _ _ _).attempt fun _ => Reports.popEvents

theorem exec_doEndBlock (context : BlockContext) :
    (Parts.doEndBlock (BlockPart.pruned host fuel (fun _ => false) stf) context).exec =
      stf.doEndBlock host fuel context := by
  unfold Parts.doEndBlock Stf.doEndBlock
  simp only [Logged.exec_bind, Logged.exec_attempt, BlockPart.exec_pruned]
  rfl

variable [BlockTrait Block Tx] {block : Block}

theorem reports_doBeginBlock :
    Reports id (Parts.doBeginBlock (BlockPart.pruned host fuel (fun _ => false) stf) block) :=
  Reports.bind (Emits.meter _) fun _ =>
    Reports.bind (Emits.runWith host fuel _ _ _).attempt fun _ => Reports.popEvents

theorem exec_doBeginBlock :
    (Parts.doBeginBlock (BlockPart.pruned host fuel (fun _ => false) stf) block).exec =
      stf.doBeginBlock host fuel block := by
  unfold Parts.doBeginBlock Stf.doBeginBlock
  simp only [Logged.exec_bind, Logged.exec_attempt, BlockPart.exec_pruned]
  rfl

/-- For every block, with every account code: the begin-block events, those of the results and the
end-block events are the events that were emitted and not rolled back, in this order, except those
of senders that were bootstrapped; and each of them is reported by the part of the block that
emitted it. -/
theorem applyBlock_events {w w' : World} {result : BlockResult} {executed : List Tx}
    (hempty : w.storage.events = [])
    (h : stf.applyBlock host fuel block w = .done (.ok (result, executed), w')) :
    let trace := traceBlock host fuel stf block w
    trace.actions = (Traced.retainedBlock host fuel stf block).log w ∧
      result.beginBlockEvents ++ result.txResults.flatMap TxResult.events ++
        result.endBlockEvents = emitted trace.reported ∧
      result.beginBlockEvents = emitted trace.beginBlock ∧
      result.txResults.map TxResult.events = trace.txs.map (emitted ·.reported) ∧
      result.endBlockEvents = emitted trace.endBlock := by
  rcases Exec.bind_done.mp h with ⟨events, w₁, hbegin, h⟩ | ⟨_, _, ⟨⟩⟩
  rcases Exec.bind_done.mp h with ⟨q, w₂, htxs, h⟩ | ⟨_, _, ⟨⟩⟩
  rcases Exec.bind_done.mp h with ⟨events', w₃, hend, h⟩ | ⟨_, _, ⟨⟩⟩
  cases h
  obtain ⟨_, ⟨⟩, hloop⟩ := Stf.applyTxs_loop htxs
  rw [← exec_doBeginBlock] at hbegin
  rw [← exec_doEndBlock] at hend
  obtain ⟨hfirst, hleft⟩ := reports_doBeginBlock hbegin
  obtain ⟨executed, hexecuted, hresults, hlog, hleft⟩ := hloop.events hleft
  obtain ⟨hlast, -⟩ := reports_doEndBlock _ hend
  have htrace : traceBlock host fuel stf block w =
      ⟨(Parts.doBeginBlock (BlockPart.pruned host fuel (fun _ => false) stf) block).log w,
        traceTxs host fuel stf (BlockTrait.context block) executed w₁,
        (Parts.doEndBlock (BlockPart.pruned host fuel (fun _ => false) stf)
          (BlockTrait.context block)).log w₂⟩ := by
    rw [exec_doBeginBlock] at hbegin
    rw [traceBlock, hbegin]
    dsimp only
    rw [htxs]
    dsimp only
    rw [hexecuted]
    rfl
  rw [← Parts.exec_applyTxs BlockPart.exec_pruned] at htxs
  rw [hempty, List.nil_append] at hfirst
  rw [hleft, List.nil_append] at hlast
  rw [htrace]
  have hretained : (Traced.retainedBlock host fuel stf block).log w = _ :=
    Logged.log_bind_ok hbegin
  refine ⟨?_, ?_, hfirst, hresults, hlast⟩
  · rw [hretained, Logged.log_bind_ok htxs, Logged.log_bind_ok hend, hlog]
    show BlockTrace.actions _ = _ ++ (_ ++ (_ ++ []))
    rw [BlockTrace.actions, List.append_nil, List.append_assoc]
  · show _ = emitted (BlockTrace.reported _)
    rw [BlockTrace.reported, emitted_append, emitted_append, emitted_flatMap, ← hlast, ← hfirst,
      List.flatMap_def, hresults]
    rfl

end

/-! ### A block with a bootstrapped sender and a call that fails -/

def emitOnly (name : String) : Program Unit := Prog.request (EnvOp.emitEvent name [])

/-- Code that emits an event and fails. -/
def sulkingCode : AccountCode where
  init _ _ := Prog.throw errUnauthorized
  execute _ _ := .call (.emitEvent "lost" []) fun _ => Prog.throw errUnauthorized
  query _ _ := Prog.throw errUnknownFunction

/-- Code that emits events when it is created and before and after a call that fails. -/
def greetingCode : AccountCode where
  init _ _ := .call (.emitEvent "created" []) fun _ => Prog.ofExcept (InvokeResponse.new ())
  execute _ _ :=
    .call (.emitEvent "before" []) fun _ =>
      .call (.doExec (.fromU64 11) (Invoker.initRequest []) []) fun _ =>
        .call (.emitEvent "after" []) fun _ => Prog.ofExcept (InvokeResponse.new ())
  query _ _ := Prog.throw errUnknownFunction

/-- Accounts 10 and 11 have these codes, under the names of those of `sampleStore`. -/
def greetingHost : Host where
  withCode codeId :=
    .ok (if codeId = "recording" then some greetingCode
      else if codeId = "refusing" then some sulkingCode else none)
  isAlphanumeric c := c.isAlphanum

def greetingStf : Stf TestTx TestBlock :=
  { testStf with
    beginBlock := fun _ _ => emitOnly "begun"
    endBlock := fun _ => emitOnly "ended" }

def greetingTx : TestTx :=
  ⟨.fromU64 300, .fromU64 10, Invoker.initRequest [], 1000, [], some ⟨"recording", []⟩⟩

def greetingBlock : TestBlock := ⟨⟨1, 0⟩, [greetingTx], 1000⟩

def runtimeEvent (name : String) : Event := ⟨runtimeAccountId, name, []⟩

theorem greetingBlock_ends :
    Exec.Ends (greetingStf.applyBlock greetingHost 3 greetingBlock) (fun r _ =>
      (r.toOption.map fun (result, _) => (result.beginBlockEvents, result.txResults.map
        TxResult.events, result.endBlockEvents)) =
        some ([runtimeEvent "begun"], [[⟨.fromU64 10, "before", []⟩, ⟨.fromU64 10, "after", []⟩]],
          [runtimeEvent "ended"])) sampleWorld := by
  decide +kernel

/-- The event of the new account and the one of the failed call are not reported. -/
theorem applyBlock_events_greetingBlock :
    ∃ result executed w', sampleWorld.storage.events = [] ∧
      greetingStf.applyBlock greetingHost 3 greetingBlock sampleWorld =
        .done (.ok (result, executed), w') ∧
      result.txResults.map TxResult.events =
        [[⟨.fromU64 10, "before", []⟩, ⟨.fromU64 10, "after", []⟩]] ∧
      result.beginBlockEvents ++ result.txResults.flatMap TxResult.events ++
          result.endBlockEvents =
        emitted (traceBlock greetingHost 3 greetingStf greetingBlock sampleWorld).reported ∧
      emitted (traceBlock greetingHost 3 greetingStf greetingBlock sampleWorld).actions =
        [runtimeEvent "begun", ⟨.fromU64 300, "created", []⟩, ⟨.fromU64 10, "before", []⟩,
          ⟨.fromU64 10, "after", []⟩, runtimeEvent "ended"] := by
  obtain ⟨r, w', hrun, hr⟩ := greetingBlock_ends.exists
  obtain ⟨⟨result, executed⟩, rfl⟩ := Stf.applyBlock_done hrun
  refine ⟨result, executed, w', rfl, hrun, congrArg (·.2.1) (Option.some.inj hr), ?_, ?_⟩
  · exact (applyBlock_events rfl hrun).2.1
  · decide +kernel

end Evolve
