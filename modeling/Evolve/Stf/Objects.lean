import Mathlib
import Evolve.Stf.Retained

/-! Requests for unique ids, in traces without what was rolled back.  A request gets the next number
of the counter that the whole block shares, and a rollback takes the counter back; so the requests
that are in force have consecutive numbers. -/

namespace Evolve

open Machine Borsh Effects

/-! ### Requests -/

/-- A request for a unique id: the scope of its frame, and the counter before it. -/
structure ObjectRequest where
  scope : ExecutionScope
  counter : UInt64

def ObjectRequest.id (request : ObjectRequest) : SdkResult (FixedBytes 32) :=
  request.scope.uniqueId (request.counter + 1)

def Action.objectRequest : Action → Option ObjectRequest
  | .begins (.call frame .uniqueId :: _) w => some ⟨frame.scope, w.storage.uniqueObjects⟩
  | _ => none

def objectRequests (l : List Action) : List ObjectRequest := l.filterMap Action.objectRequest

def handedOut (l : List Action) : List (FixedBytes 32) :=
  (objectRequests l).filterMap fun request => request.id.toOption

theorem uniqueId_apply (frame : Invoker) (w : World) :
    frame.uniqueId w = .done (ObjectRequest.id ⟨frame.scope, w.storage.uniqueObjects⟩,
      { w with storage := w.storage.nextUniqueObjectId.2 }) := rfl

/-! ### Consecutive numbers -/

/-- The counter after the requests in a trace. -/
def counterAfter (counter : UInt64) (l : List Action) : UInt64 :=
  counter + UInt64.ofNat (objectRequests l).length

/-- The requests of a trace, up to its first pinned entry, find the counter where those before them
left it. -/
def Numbered (pin : Action → Bool) : UInt64 → List Action → Prop
  | _, [] => True
  | counter, action :: l =>
    (∀ request ∈ action.objectRequest, request.counter = counter) ∧
      (pin action = false → Numbered pin (counterAfter counter [action]) l)

theorem counterAfter_nil (counter : UInt64) : counterAfter counter [] = counter := by
  simp [counterAfter, objectRequests]

theorem counterAfter_append (counter : UInt64) (l l' : List Action) :
    counterAfter counter (l ++ l') = counterAfter (counterAfter counter l) l' := by
  simp only [counterAfter, objectRequests, List.filterMap_append, List.length_append,
    UInt64.ofNat_add, add_assoc]

theorem numbered_append {pin : Action → Bool} {counter : UInt64} {l l' : List Action} :
    Numbered pin counter (l ++ l') ↔ Numbered pin counter l ∧
      (l.any pin = false → Numbered pin (counterAfter counter l) l') := by
  induction l generalizing counter with
  | nil => simp [Numbered, counterAfter_nil]
  | cons action l ih =>
    have hcounter := counterAfter_append counter [action] l
    rw [List.singleton_append] at hcounter
    simp only [List.cons_append, Numbered, ih, hcounter, List.any_cons, Bool.or_eq_false_iff]
    constructor
    · rintro ⟨hrequest, hrest⟩
      exact ⟨⟨hrequest, fun hpin => (hrest hpin).1⟩, fun h => (hrest h.1).2 h.2⟩
    · rintro ⟨⟨hrequest, hl⟩, hl'⟩
      exact ⟨hrequest, fun hpin => ⟨hl hpin, fun hany => hl' ⟨hpin, hany⟩⟩⟩

/-- What a computation does with the counter: its requests come from frames of the given scopes,
they are numbered from where the counter is, and it leaves the counter where they do. -/
structure Numbers (pin : Action → Bool) (Scope : ExecutionScope → Prop) (w : World)
    (l : List Action) (last : Option World) : Prop where
  scopes : ∀ request ∈ objectRequests l, Scope request.scope
  numbered : Numbered pin w.storage.uniqueObjects l
  counter : l.any pin = false → ∀ w' ∈ last,
    w'.storage.uniqueObjects = counterAfter w.storage.uniqueObjects l

def World.SameCounter (w w' : World) : Prop :=
  w'.storage.uniqueObjects = w.storage.uniqueObjects

namespace Numbers

variable {pin : Action → Bool} {Scope : ExecutionScope → Prop}

theorem composes : Logged.Composes (Numbers pin Scope) where
  refl w := by
    refine ⟨by rintro request ⟨⟩, trivial, ?_⟩
    rintro - _ ⟨⟩
    exact (counterAfter_nil _).symm
  trans a l b l' o h₁ h₂ := by
    have hb : l.any pin = false →
        b.storage.uniqueObjects = counterAfter a.storage.uniqueObjects l :=
      fun hany => h₁.counter hany b rfl
    refine ⟨?_, numbered_append.mpr ⟨h₁.numbered, fun hany => hb hany ▸ h₂.numbered⟩, ?_⟩
    · intro request hrequest
      rw [objectRequests, List.filterMap_append] at hrequest
      rcases List.mem_append.mp hrequest with h | h
      · exact h₁.scopes request h
      · exact h₂.scopes request h
    · intro hany w' hw'
      rw [List.any_append, Bool.or_eq_false_iff] at hany
      rw [h₂.counter hany.2 w' hw', hb hany.1, counterAfter_append]

/-- An entry that is no request. -/
theorem entry {w w' : World} {action : Action} (haction : action.objectRequest = none)
    (hsame : w.SameCounter w') : Numbers pin Scope w [action] (some w') := by
  have hnone : objectRequests [action] = [] := by simp [objectRequests, haction]
  refine ⟨by simp [hnone], ⟨by simp [haction], fun _ => trivial⟩, ?_⟩
  rintro - _ ⟨⟩
  rw [counterAfter, hnone]
  exact hsame.trans (counterAfter_nil _).symm

theorem silent {w w' : World} (hsame : w.SameCounter w') : Numbers pin Scope w [] (some w') := by
  refine ⟨by rintro request ⟨⟩, trivial, ?_⟩
  rintro - _ ⟨⟩
  rw [counterAfter_nil]
  exact hsame

/-- What is known of a computation whose end is not looked at. -/
theorem unended {w : World} {l : List Action} {last : Option World}
    (h : Numbers pin Scope w l last) : Numbers pin Scope w l none :=
  ⟨h.scopes, h.numbered, by rintro - _ ⟨⟩⟩

end Numbers

/-! ### The counter over calls -/

namespace Numbers

variable {pin : Action → Bool} {Scope : ExecutionScope → Prop} {α : Type}

theorem lift {m : Run α} (hm : Exec.Keeps World.SameCounter m) :
    Logged.Keeps (Numbers pin Scope) (Logged.lift m) := by
  intro w
  have hw := hm w
  unfold Exec.wp at hw
  unfold Logged.last
  dsimp only [Logged.lift]
  rcases h : m w with ⟨⟨r, w'⟩⟩ | _ | _ <;> rw [h] at hw
  · exact silent hw
  · exact (composes.refl w).unended
  · exact hw.elim

theorem uniqueId {frame : Invoker} (hscope : Scope frame.scope) (stack : Stack) :
    Logged.Keeps (Numbers pin Scope) (Traced.within (.call frame .uniqueId) stack fun _ =>
      (Logged.lift frame.uniqueId : Traced (FixedBytes 32))) := by
  intro w
  have hlog : (Traced.within (.call frame .uniqueId) stack fun _ =>
      (Logged.lift frame.uniqueId : Traced (FixedBytes 32))).log w =
      [.begins (.call frame .uniqueId :: stack) w] := rfl
  have hlast : (Traced.within (.call frame .uniqueId) stack fun _ =>
      (Logged.lift frame.uniqueId : Traced (FixedBytes 32))).last w =
      some { w with storage := w.storage.nextUniqueObjectId.2 } :=
    Logged.last_eq_some (uniqueId_apply frame w)
  rw [hlog, hlast]
  refine ⟨?_, ⟨?_, fun _ => trivial⟩, ?_⟩
  · rintro request (_ | ⟨_, ⟨⟩⟩)
    exact hscope
  · rintro request ⟨⟩
    rfl
  · rintro - _ ⟨⟩
    rfl

theorem emitEvent (stack : Stack) (frame : Invoker) (name : String) (data : Bytes) :
    Logged.Keeps (Numbers pin Scope) (Traced.within (.call frame (.emitEvent name data)) stack
      fun _ => Logged.lift (frame.emitEvent name data)) := by
  refine composes.keeps_bind (Logged.Keeps.mark fun _ => entry rfl rfl) fun _ => lift fun w => ?_
  unfold Exec.wp
  rcases emitEvent_cases frame name data w with ⟨w', hdone, -, hcounter⟩ | ⟨e, hdone⟩ <;> rw [hdone]
  · exact hcounter
  · exact rfl

/-- However calls are nested and fail, the requests that are in force have consecutive numbers. -/
theorem pruneRule : PruneRule pin Scope (Numbers pin Scope) where
  toComposes := composes
  unended h := h.unended
  mute h := silent h.uniqueObjects
  begins {activity} stack w hnests := by
    refine entry ?_ rfl
    cases activity with
    | call frame op =>
      cases op with
      | uniqueId => cases hnests
      | _ => rfl
    | _ => rfl
  write _ _ _ _ _ h := entry rfl h.uniqueObjects
  emitEvent := emitEvent
  uniqueId stack _ hscope := uniqueId hscope stack
  undone {w l w'} hsame h := by
    cases hany : l.any pin with
    | false => exact silent hsame.uniqueObjects
    | true =>
      refine ⟨h.scopes, h.numbered, fun hnone => ?_⟩
      cases hany.symm.trans hnone

end Numbers

namespace Numbers

variable {pin : Action → Bool} {Scope : ExecutionScope → Prop} {Tx Block : Type} [Transaction Tx]
  {host : Host} {fuel : Nat} {stf : Stf Tx Block}

theorem popEvents : Logged.Keeps (Numbers pin Scope) (Logged.lift Run.popEvents) :=
  lift fun _ => rfl

theorem part (part : BlockPart Tx Block) (hscope : Scope part.scope) :
    Logged.Keeps (Numbers pin Scope) (part.pruned host fuel pin stf) :=
  pruneRule.keeps_part popEvents part hscope

theorem txResult (response : SdkResult InvokeResponse) :
    Logged.Keeps (Numbers pin Scope) (Logged.lift (Stf.txResult response)) :=
  lift fun _ => rfl

theorem meter (gasCounter : GasCounter) :
    Logged.Keeps (Numbers pin Scope) (Logged.lift (Run.meter gasCounter)) :=
  lift fun _ => rfl

/-- The requests of a transaction are made in the scope of the block or in its own. -/
theorem applyTx {tx : Tx} {context : BlockContext} (hblock : Scope (.beginBlock context.height))
    (htx : Scope (.transaction (Transaction.computeIdentifier tx))) :
    Logged.Keeps (Numbers pin Scope)
      (Parts.applyTx (BlockPart.pruned host fuel pin stf) stf tx context) := by
  refine composes.keeps_bind (meter _) fun _ => composes.keeps_bind ?_ fun admitted => ?_
  · refine Logged.Keeps.attempt (composes.keeps_bind (part _ hblock) fun sender => ?_)
    refine composes.keeps_bind (part _ hblock) fun _ => ?_
    exact composes.keeps_bind (part _ htx) fun _ => composes.keeps_pure _
  · cases admitted with
    | error err => exact txResult _
    | ok sender => exact composes.keeps_bind (part _ htx).attempt fun response => txResult _

theorem applyBlock [BlockTrait Block Tx] (block : Block) :
    Logged.Keeps (Numbers pin fun _ => True)
      (Parts.applyBlock (BlockPart.pruned host fuel pin stf) stf block) :=
  Parts.keeps_applyBlock composes (fun p => part p trivial) meter txResult popEvents stf block

end Numbers

end Evolve
