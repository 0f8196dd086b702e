import Mathlib
import Evolve.Stf.Atomicity
import Evolve.Stf.Nesting

/-! Call depth: how deep account code can be nested.  Calls of `doExec` are refused from the maximal
depth on, calls of `doQuery` are not, and they are what unbounded nesting comes from. -/

namespace Evolve

open Machine Borsh Effects

/-! ### The depth of a stack -/

/-- How many frames are nested. -/
def Stack.depth (stack : Stack) : Nat := stack.countP Activity.opensFrame

@[simp] theorem Stack.depth_cons (a : Activity) (stack : Stack) :
    Stack.depth (a :: stack) = Stack.depth stack + if a.opensFrame then 1 else 0 :=
  List.countP_cons

@[simp] theorem Invoker.callDepth_branchExec (invoker : Invoker) (target : AccountId)
    (funds : List FungibleAsset) : (invoker.branchExec target funds).callDepth = invoker.deeper :=
  rfl

@[simp] theorem Invoker.callDepth_branchQuery (invoker : Invoker) (target : AccountId) :
    (invoker.branchQuery target).callDepth = invoker.deeper := rfl

variable {stack : Stack}

/-- The depth of a frame counts the frames it is nested in, as far as a `u16` counts. -/
theorem Live.callDepth_eq {root : Invoker} {op : EnvOp} (hroot : root.callDepth = 0) {a : Activity}
    (h : Live (· = [.call root op]) (a :: stack)) :
    a.frame.callDepth = min (Stack.depth (a :: stack)) 65535 := by
  generalize hs : a :: stack = s at h
  induction h generalizing a stack with
  | root hr =>
    subst hr
    obtain ⟨rfl, rfl⟩ := List.cons.inj hs
    exact hroot
  | begets live hbegets ih =>
    cases hs
    have ih := ih rfl
    cases hbegets <;> simp only [Activity.frame, Activity.opensFrame, Stack.depth_cons,
      Invoker.callDepth_branchExec, Invoker.callDepth_branchQuery, Invoker.deeper] at ih ⊢ <;>
      simp only [Bool.false_eq_true, if_false, if_true] at ih ⊢ <;> omega
  | migrated live ih =>
    cases hs
    simpa [Activity.frame, Activity.opensFrame] using ih rfl
  | issue live _ ih =>
    cases hs
    simpa [Activity.frame, Activity.opensFrame] using ih rfl
  | hook live ih =>
    cases hs
    simpa [Activity.frame, Activity.opensFrame] using ih rfl

/-- The invoker works for a frame only below the maximal depth. -/
def Activity.Shallow : Activity → Prop
  | .exec frame _ _ _ _ => frame.callDepth < maxCallDepth
  | .create frame _ => frame.callDepth < maxCallDepth
  | .register frame _ => frame.callDepth < maxCallDepth
  | .migrate frame _ => frame.callDepth < maxCallDepth
  | _ => True

theorem Live.shallow {root : Invoker} {op : EnvOp} {a : Activity}
    (h : Live (· = [.call root op]) (a :: stack)) : a.Shallow := by
  generalize hs : a :: stack = s at h
  induction h generalizing a stack with
  | root hr =>
    cases hs.trans hr
    trivial
  | begets live hbegets ih =>
    cases hs
    have ih := ih rfl
    cases hbegets <;> first | assumption | trivial
  | migrated live ih => cases hs; trivial
  | issue live _ ih => cases hs; trivial
  | hook live ih => cases hs; trivial

/-! ### Queries from the maximal depth -/

/-- A call of `doQuery` from a frame that is already at the maximal depth runs account code. -/
def Stack.DeepQuery : Stack → Prop
  | .code .query _ _ _ :: .call frame _ :: _ => maxCallDepth ≤ frame.callDepth
  | _ => False

theorem Stack.DeepQuery.exists (h : stack.DeepQuery) :
    ∃ inner code request frame op rest,
      stack = .code .query inner code request :: .call frame op :: rest ∧
        maxCallDepth ≤ frame.callDepth := by
  unfold DeepQuery at h
  split at h
  · exact ⟨_, _, _, _, _, _, rfl, h⟩
  · exact h.elim

/-- Code that does not come from such a query runs within the maximal depth. -/
theorem Live.callDepth_code_le {root : Invoker} {op : EnvOp} {entry : Entry} {frame : Invoker}
    {code : AccountCode} {request : InvokeRequest}
    (h : Live (· = [.call root op]) (.code entry frame code request :: stack))
    (hquery : ¬ Stack.DeepQuery (.code entry frame code request :: stack)) :
    frame.callDepth ≤ maxCallDepth := by
  cases h with
  | root hr => cases hr
  | begets live hbegets =>
    have hshallow := live.shallow
    cases hbegets with
    | query => exact Nat.le_trans (Nat.min_le_left _ _) (Nat.lt_of_not_le hquery)
    | execute => exact Nat.le_trans (Nat.min_le_left _ _) hshallow
    | createInit => exact Nat.le_trans (Nat.min_le_left _ _) hshallow
    | registerInit => exact Nat.le_trans (Nat.min_le_left _ _) hshallow

/-! ### Recursion that ends -/

/-- Where `fuel` nested frames are enough, unless a query starts from the maximal depth. -/
def Stack.Roomy (fuel : Nat) : Stack → Prop
  | .call frame _ :: _ => frame.callDepth ≤ maxCallDepth ∧ maxCallDepth < frame.callDepth + fuel
  | .exec frame _ _ _ _ :: _ =>
    frame.callDepth < maxCallDepth ∧ maxCallDepth < frame.callDepth + fuel
  | .create frame _ :: _ => frame.callDepth < maxCallDepth ∧ maxCallDepth < frame.callDepth + fuel
  | .register frame _ :: _ => frame.callDepth < maxCallDepth ∧ maxCallDepth < frame.callDepth + fuel
  | .migrate frame _ :: _ => frame.callDepth < maxCallDepth ∧ maxCallDepth < frame.callDepth + fuel
  | .code entry frame code request :: stack =>
    maxCallDepth + 1 < frame.callDepth + fuel ∧
      (¬ Stack.DeepQuery (.code entry frame code request :: stack) →
        frame.callDepth ≤ maxCallDepth)
  | _ => False

def Action.DeepQuery : Action → Prop
  | .begins stack _ => stack.DeepQuery
  | .write _ _ _ _ _ => False

/-- A call without such queries ends. -/
def EndsUnlessDeep (_ : World) (l : List Action) (last : Option World) : Prop :=
  (∀ action ∈ l, ¬ action.DeepQuery) → last ≠ none

theorem Invoker.deeper_eq {invoker : Invoker} (h : invoker.callDepth ≤ maxCallDepth) :
    invoker.deeper = invoker.callDepth + 1 := by
  unfold deeper maxCallDepth at *
  omega

theorem roomy_code {fuel : Nat} {frame : Invoker} {target : AccountId}
    {funds : List FungibleAsset} {p : Prop}
    (h : frame.callDepth < maxCallDepth ∧ maxCallDepth < frame.callDepth + fuel) :
    maxCallDepth + 1 < (frame.branchExec target funds).callDepth + fuel ∧
      (p → (frame.branchExec target funds).callDepth ≤ maxCallDepth) := by
  rw [Invoker.callDepth_branchExec, Invoker.deeper_eq h.1.le]
  exact ⟨by omega, fun _ => h.1⟩

theorem endsUnlessDeep_rule : WriteRule Stack.Roomy EndsUnlessDeep where
  refl _ _ := nofun
  trans _ _ _ _ _ _ h₂ hl := h₂ fun action h => hl action (List.mem_append_right _ h)
  begets hok hbegets _ := by
    cases hbegets with
    | transfer hshallow => exact ⟨hshallow, hok.2⟩
    | deliver hshallow => exact ⟨hshallow, hok.2⟩
    | query =>
      have hdeeper := Invoker.deeper_eq hok.1
      refine ⟨?_, fun hdeep => ?_⟩
      · rw [Invoker.callDepth_branchQuery, hdeeper]
        have := hok.2
        omega
      · rw [Invoker.callDepth_branchQuery, hdeeper]
        exact Nat.lt_of_not_le hdeep
    | execute => exact roomy_code hok
    | create => exact hok
    | createInit => exact roomy_code hok
    | register => exact hok
    | registerInit => exact roomy_code hok
    | migrate => exact hok
  migrated _ hok := by
    have hdeeper := Invoker.deeper_eq hok.1.le
    have := hok.2
    refine ⟨?_, ?_⟩ <;> rw [Invoker.callDepth_branchExec, hdeeper]
    · exact hok.1
    · omega
  exhausted hok _ _ := by
    simp only [Stack.Roomy] at hok
    omega
  begins _ _ _ := nofun
  silent _ _ _ _ := nofun
  rollback _ _ _ _ _ _ := nofun
  write _ _ _ _ := nofun

theorem endsUnlessDeep_traceRule (host : Host) : TraceRule host Stack.Roomy EndsUnlessDeep := by
  have rule := endsUnlessDeep_rule.actionRule host
  -- Code that runs too deep comes from a query that the condition excludes.
  have run : ∀ {fuel entry frame code request stack},
      CallsKeep host Stack.Roomy EndsUnlessDeep fuel →
      Stack.Roomy (fuel + 1) (.code entry frame code request :: stack) →
      Logged.Keeps EndsUnlessDeep
        (Traced.runCode (tracedEnvironment host fuel) entry frame code request stack) := by
    intro fuel entry frame code request stack hcalls hok
    by_cases hdeep : Stack.DeepQuery (.code entry frame code request :: stack)
    · intro w hl
      exact absurd hdeep (hl (.begins (.code entry frame code request :: stack) w)
        (List.mem_cons_self ..))
    · refine rule.keeps_runCode hcalls hok fun op _ => ?_
      exact ⟨hok.2 hdeep, by have := hok.1; omega⟩
  exact
    { toActionRule := rule
      run := fun _ hcalls hok => run hcalls hok
      execute := fun hcalls _ _ hok => by
        refine rule.keeps_bind (rule.keeps_lift (.codeOf host _)) fun code => ?_
        exact run hcalls (roomy_code hok) }

theorem environment_ne_outOfFuel {host : Host} {fuel : Nat} {frame : Invoker} {op : EnvOp}
    {w : World} (hframe : frame.callDepth = 0) (hfuel : maxCallDepth < fuel)
    (h : ∀ action ∈ (tracedEnvironment host fuel [] frame op).log w, ¬ action.DeepQuery) :
    environment host fuel frame op w ≠ .outOfFuel := by
  intro hout
  have hok : Stack.Roomy fuel [.call frame op] := ⟨by omega, by omega⟩
  rw [← exec_tracedEnvironment host fuel []] at hout
  refine (endsUnlessDeep_traceRule host).keeps_call fuel hok w h ?_
  rw [Logged.last, hout]

/-! ### How deep account code runs -/

/-- No account code of a call runs deeper than the maximal depth, and the call comes to an end. -/
structure BoundedNesting (host : Host) (frame : Invoker) (op : EnvOp) (w : World) : Prop where
  depth_le : ∀ fuel entry inner code request stack w',
    Action.begins (.code entry inner code request :: stack) w' ∈
      (tracedEnvironment host fuel [] frame op).log w →
    Stack.depth (.code entry inner code request :: stack) ≤ maxCallDepth
  ends : ∃ enough, ∀ fuel ≥ enough, environment host fuel frame op w ≠ .outOfFuel

/-- For all account codes and every call of a top-level frame, of whatever calls it leads to: no
account code runs deeper than the maximal depth, and the recursion ends, if and only if no query of
an account is answered from a frame that is at the maximal depth. -/
theorem boundedNesting_iff (host : Host) (frame : Invoker) (hframe : frame.callDepth = 0)
    (op : EnvOp) (w : World) :
    BoundedNesting host frame op w ↔
      ∀ fuel, ∀ action ∈ (tracedEnvironment host fuel [] frame op).log w, ¬ action.DeepQuery := by
  constructor
  · intro h fuel action haction hdeep
    have hsound := sound_of_mem_call haction
    cases action with
    | write => exact hdeep
    | begins stack w' =>
      obtain ⟨_, _, _, outer, _, _, rfl, hfull⟩ := Stack.DeepQuery.exists hdeep
      have hle := h.depth_le fuel _ _ _ _ _ _ haction
      have hdepth := Live.callDepth_eq hframe hsound
      cases hsound with
      | root hr => cases hr
      | begets live hbegets =>
        cases hbegets
        simp only [Activity.frame, Invoker.callDepth_branchQuery, Invoker.deeper,
          maxCallDepth] at hdepth hle hfull
        omega
  · intro h
    constructor
    · intro fuel entry inner code request stack w' hmem
      have hsound : Live _ _ := sound_of_mem_call hmem
      have hle := hsound.callDepth_code_le (h fuel _ hmem)
      have hdepth := hsound.callDepth_eq hframe
      simp only [Activity.frame, maxCallDepth] at hle hdepth ⊢
      omega
    · exact ⟨maxCallDepth + 1, fun fuel hfuel => environment_ne_outOfFuel hframe hfuel (h fuel)⟩

theorem boundedNesting_iff_top_level_call :
    (Invoker.newForBeginBlock ⟨1, 0⟩).callDepth = 0 ∧
      (BoundedNesting sampleHost (.newForBeginBlock ⟨1, 0⟩)
          (.doExec (.fromU64 10) (Invoker.initRequest []) []) sampleWorld ↔
        ∀ fuel, ∀ action ∈ (tracedEnvironment sampleHost fuel [] (.newForBeginBlock ⟨1, 0⟩)
          (.doExec (.fromU64 10) (Invoker.initRequest []) [])).log sampleWorld,
          ¬ action.DeepQuery) :=
  ⟨rfl, boundedNesting_iff sampleHost (.newForBeginBlock ⟨1, 0⟩) rfl _ sampleWorld⟩

/-! ### A query that asks itself -/

/-- Code that answers a query by asking the same of itself. -/
def loopingCode : AccountCode where
  init _ _ := Prog.throw errUnknownFunction
  execute _ _ := Prog.throw errUnknownFunction
  query env request := Prog.request ⟨env.whoami, request⟩

def loopingHost : Host where
  withCode codeId := .ok (if codeId = "looping" then some loopingCode else none)
  isAlphanumeric c := c.isAlphanum

def loopingAccount : AccountId := .fromU64 10

def loopingWorld : World where
  storage := .new fun key =>
    if key = accountCodeIdentifierKey loopingAccount then (Message.new "looping").map some
    else .ok none
  gasCounter := .infinite
  history := []

theorem codeOf_loopingAccount {w : World}
    (h : w.storage.codeIdentifier loopingAccount = .ok (some "looping")) :
    Invoker.codeOf loopingHost loopingAccount w = .done (.ok loopingCode, w.countRead) :=
  Invoker.codeOf_of_codeIdentifier h rfl

/-- The query takes any number of nested frames. -/
theorem loopingAccount_outOfFuel (fuel : Nat) (frame : Invoker) (request : InvokeRequest)
    {w : World} (h : w.storage.codeIdentifier loopingAccount = .ok (some "looping")) :
    environment loopingHost fuel frame (.doQuery loopingAccount request) w = .outOfFuel := by
  induction fuel generalizing frame w with
  | zero => rfl
  | succ fuel ih =>
    show Invoker.doQuery loopingHost (environment loopingHost fuel) frame loopingAccount request w =
      _
    unfold Invoker.doQuery
    rw [if_neg (by decide), if_neg (by decide), Exec.bind_apply, codeOf_loopingAccount h]
    show (Exec.attempt (environment loopingHost fuel (frame.branchQuery loopingAccount)
      (.doQuery loopingAccount request)) >>= _) w.countRead = _
    rw [Exec.bind_apply, Exec.attempt, ih (w := w.countRead) _ h]

/-- The query is not cut at any depth, and its code runs deeper than the maximal depth. -/
theorem looping_query_not_bounded :
    ¬ BoundedNesting loopingHost (.newForBeginBlock ⟨1, 0⟩)
        (.doQuery loopingAccount (Invoker.initRequest [])) loopingWorld ∧
      ∀ fuel, environment loopingHost fuel (.newForBeginBlock ⟨1, 0⟩)
        (.doQuery loopingAccount (Invoker.initRequest [])) loopingWorld = .outOfFuel := by
  have hout : ∀ fuel, environment loopingHost fuel (.newForBeginBlock ⟨1, 0⟩)
      (.doQuery loopingAccount (Invoker.initRequest [])) loopingWorld = .outOfFuel := fun fuel =>
    loopingAccount_outOfFuel fuel _ _ (by decide +kernel)
  refine ⟨fun h => ?_, hout⟩
  obtain ⟨enough, hends⟩ := h.ends
  exact hends enough le_rfl (hout enough)

end Evolve
