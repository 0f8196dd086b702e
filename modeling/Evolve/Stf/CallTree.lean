import Mathlib
import Evolve.Stf.Invoker

/-! The rule for call trees: a relation between worlds that the single actions of a frame keep, and
that survives a rollback, is kept by every call of every account code, however deep, and no such
call panics. -/

namespace Evolve

open Machine Borsh Effects

/-! ### Single actions -/

def ExecutionState.codeIdentifier (s : ExecutionState) (account : AccountId) :
    SdkResult (Option String) :=
  match s.lookup (accountCodeIdentifierKey account) with
  | .ok none => .ok none
  | .ok (some codeId) => some <$> Message.get codeId
  | .error e => .error e

def World.countRead (w : World) : World := { w with storage := w.storage.countRead }

def World.rollback (w w' : World) : World := { w' with storage := w.storage.rollback w'.storage }

def World.SameStore (w w' : World) : Prop := w'.storage.lookup = w.storage.lookup

theorem World.SameStore.refl (w : World) : w.SameStore w := rfl

theorem World.SameStore.trans {a b c : World} (h₁ : a.SameStore b) (h₂ : b.SameStore c) :
    a.SameStore c :=
  Eq.trans h₂ h₁

@[simp] theorem wp_get {key : Bytes} {Q : SdkResult (Option Message) → World → Prop} {w : World} :
    Exec.wp (Run.get key) Q w ↔ Q (w.storage.lookup key) w.countRead := Iff.rfl

theorem getAccountCodeIdentifierForAccount_apply (account : AccountId) (w : World) :
    getAccountCodeIdentifierForAccount account w =
      .done (w.storage.codeIdentifier account, w.countRead) := by
  unfold getAccountCodeIdentifierForAccount ExecutionState.codeIdentifier
  rw [Exec.bind_apply, Run.get]
  simp only [ExecutionState.get]
  rcases w.storage.lookup (accountCodeIdentifierKey account) with e | _ | codeId
  · rfl
  · rfl
  · simp only [Exec.map_ofExcept]
    rfl

variable {account : AccountId}

theorem wp_getAccountCodeIdentifierForAccount {Q : SdkResult (Option String) → World → Prop}
    {w : World} :
    Exec.wp (getAccountCodeIdentifierForAccount account) Q w ↔
      Q (w.storage.codeIdentifier account) w.countRead := by
  unfold Exec.wp
  rw [getAccountCodeIdentifierForAccount_apply]

theorem Invoker.codeOf_of_codeIdentifier {host : Host} {codeId : String} {code : AccountCode}
    {w : World} (h : w.storage.codeIdentifier account = .ok (some codeId))
    (hcode : host.withCode codeId = .ok (some code)) :
    codeOf host account w = .done (.ok code, w.countRead) := by
  unfold codeOf
  rw [Exec.bind_apply, getAccountCodeIdentifierForAccount_apply, h]
  show withCode host codeId w.countRead = _
  unfold withCode
  rw [hcode]
  rfl

theorem ExecutionState.lookup_of_codeIdentifier_none {s : ExecutionState}
    (h : s.codeIdentifier account = .ok none) :
    s.lookup (accountCodeIdentifierKey account) = .ok none := by
  unfold codeIdentifier at h
  split at h
  · assumption
  · rename_i codeId _
    cases hget : (Message.get codeId : SdkResult String) <;> rw [hget] at h <;> cases h
  · cases h

variable {f : ExecutionState → SdkResult ExecutionState}

theorem update_ok {w : World} {s : ExecutionState} (h : f w.storage = .ok s) :
    Run.update f w = .done (.ok (), { w with storage := s }) := by
  rw [Run.update, h]

theorem update_error {w : World} {e : ErrorCode} (h : f w.storage = .error e) :
    Run.update f w = .done (.error e, w) := by
  rw [Run.update, h]

theorem wp_update {Q : SdkResult Unit → World → Prop} {w : World}
    (ok : ∀ s, f w.storage = .ok s → Q (.ok ()) { w with storage := s })
    (error : ∀ e, f w.storage = .error e → Q (.error e) w) : Exec.wp (Run.update f) Q w := by
  unfold Exec.wp Run.update
  cases h : f w.storage with
  | ok s => exact ok s h
  | error e => exact error e h

theorem wp_charge {f : GasCounter → SdkResult GasCounter} {Q : SdkResult Unit → World → Prop}
    {w : World} (ok : ∀ c, f w.gasCounter = .ok c → Q (.ok ()) { w with gasCounter := c })
    (error : ∀ e, f w.gasCounter = .error e → Q (.error e) w) : Exec.wp (Run.charge f) Q w := by
  unfold Exec.wp Run.charge
  cases h : f w.gasCounter with
  | ok c => exact ok c h
  | error e => exact error e h

theorem restoreCheckpoint_apply {w w' : World} (h : w.storage.Extends w'.storage) :
    Run.restoreCheckpoint w.storage.checkpoint.1 w' = .done (.ok (), w.rollback w') := by
  unfold Run.restoreCheckpoint
  rw [ExecutionState.restore_eq h]
  rfl

/-! ### Calls that are undone if they fail -/

/-- Goes back to where a computation started if it fails, as calls do. -/
def Run.orRollback {α : Type} (m : Run α) : Run α := do
  let checkpoint ← Run.checkpoint
  match ← Exec.attempt m with
  | .error e =>
    Run.restoreCheckpoint checkpoint
    Exec.throw e
  | .ok a => pure a

/-- The world in which a computation that may be undone starts. -/
def World.checkpointed (w : World) : World := { w with storage := w.storage.checkpoint.2 }

section

variable {α : Type} {m : Run α} {w w' : World}

theorem orRollback_ok {a : α} (h : m w.checkpointed = .done (.ok a, w')) :
    Run.orRollback m w = .done (.ok a, w') := by
  show (Exec.attempt m >>= _) w.checkpointed = _
  rw [Exec.bind_apply, Exec.attempt, h]
  rfl

theorem orRollback_error {e : ErrorCode}
    (h : m w.checkpointed = .done (.error e, w'))
    (hext : w.storage.Extends w'.storage) :
    Run.orRollback m w = .done (.error e, w.rollback w') := by
  show (Exec.attempt m >>= _) w.checkpointed = _
  rw [Exec.bind_apply, Exec.attempt, h]
  show (Run.restoreCheckpoint w.storage.checkpoint.1 >>= fun _ => Exec.throw e) w' = _
  rw [Exec.bind_apply, restoreCheckpoint_apply hext]
  rfl

/-- It ends where the computation does, or rolled back from there. -/
theorem orRollback_done (hext : Exec.Keeps (fun w w' => w.storage.Extends w'.storage) m)
    {r : SdkResult α} (h : Run.orRollback m w = .done (r, w')) :
    (∃ a, r = .ok a ∧ m w.checkpointed = .done (.ok a, w')) ∨
      ∃ e w₁, r = .error e ∧ m w.checkpointed = .done (.error e, w₁) ∧
        w.storage.Extends w₁.storage ∧ w' = w.rollback w₁ := by
  have hstart : w.storage.Extends w.checkpointed.storage := .of_eq rfl rfl rfl rfl
  have hgrown := hext w.checkpointed
  unfold Exec.wp at hgrown
  rcases hrun : m w.checkpointed with ⟨⟨(e | a), w₁⟩⟩ | _ | _ <;> rw [hrun] at hgrown
  · have hgrown := hstart.trans hgrown
    rw [orRollback_error hrun hgrown] at h
    cases h
    exact .inr ⟨e, w₁, rfl, rfl, hgrown, rfl⟩
  · rw [orRollback_ok hrun] at h
    cases h
    exact .inl ⟨a, rfl, rfl⟩
  · have hout : Run.orRollback m w = .outOfFuel := by
      show (Exec.attempt m >>= _) w.checkpointed = _
      rw [Exec.bind_apply, Exec.attempt, hrun]
    rw [hout] at h
    cases h
  · exact hgrown.elim

end

/-- Two computations that are undone together. -/
theorem orRollback_bind {α β : Type} (m : Run α) (f : α → Run β) :
    Run.orRollback (m >>= f) = (do
      let checkpoint ← Run.checkpoint
      match ← Exec.attempt m with
      | .error e =>
        Run.restoreCheckpoint checkpoint
        Exec.throw e
      | .ok a =>
        match ← Exec.attempt (f a) with
        | .error e =>
          Run.restoreCheckpoint checkpoint
          Exec.throw e
        | .ok b => pure b) := by
  refine congrArg (Run.checkpoint >>= ·) (funext fun checkpoint => funext fun w => ?_)
  rw [Exec.bind_apply, Exec.bind_apply, Exec.attempt, Exec.attempt, Exec.bind_apply]
  rcases m w with ⟨⟨(e | a), w'⟩⟩ | _ | _
  · rfl
  · dsimp only
    rw [Exec.bind_apply, Exec.attempt]
  · rfl
  · rfl

theorem doExec_ok {host : Host} {nested : Environment} {invoker : Invoker} {target : AccountId}
    {data : InvokeRequest} {funds : List FungibleAsset} {w w' : World} {response : InvokeResponse}
    (h : Invoker.doExec host nested invoker target data funds w = .done (.ok response, w')) :
    ∃ w₁, Invoker.handleTransfers host nested invoker target funds
        { w with storage := w.storage.checkpoint.2 } = .done (.ok (), w₁) ∧
      Invoker.execWithoutTransfers host nested invoker target data funds w₁ =
        .done (.ok response, w') := by
  unfold Invoker.doExec at h
  split at h
  · cases h
  rcases Exec.bind_done.mp h with ⟨_, _, ⟨⟩, h⟩ | ⟨_, ⟨⟩, _⟩
  rcases Exec.bind_done.mp h with ⟨transferred, w₁, htransfers, h⟩ | ⟨_, _, he⟩
  · obtain ⟨_, htransfers, ⟨⟩⟩ := Exec.attempt_done.mp htransfers
    cases transferred with
    | error e =>
      rcases Exec.bind_done.mp h with ⟨_, _, _, hthrow⟩ | ⟨_, _, he⟩
      · cases hthrow
      · cases he
    | ok _ =>
      rcases Exec.bind_done.mp h with ⟨result, w₂, hexec, h⟩ | ⟨_, _, he⟩
      · obtain ⟨_, hexec, ⟨⟩⟩ := Exec.attempt_done.mp hexec
        cases result with
        | error e =>
          rcases Exec.bind_done.mp h with ⟨_, _, _, hthrow⟩ | ⟨_, _, he⟩
          · cases hthrow
          · cases he
        | ok result =>
          cases h
          exact ⟨w₁, htransfers, hexec⟩
      · cases he
  · cases he

/-! ### The rules -/

/-- What a relation must allow to be kept by every query: reads and charges. -/
structure QueryRule (R : World → World → Prop) : Prop where
  refl : ∀ w, R w w
  trans : ∀ ⦃a b c⦄, R a b → R b c → R a c
  countRead : ∀ w, R w w.countRead
  charge : ∀ charge size, Exec.Keeps R (Run.charge (·.consumeStorageGas charge size))

/-- What a relation must allow to be kept by every call: also the other actions of a frame, the
steps that give accounts their code, and rollbacks. -/
structure CallRule (host : Host) (R : World → World → Prop) : Prop extends QueryRule R where
  checkpoint : Exec.Keeps R Run.checkpoint
  nextUniqueObjectId : Exec.Keeps R Run.nextUniqueObjectId
  emitEvent : ∀ event, Exec.Keeps R (Run.update (·.emitEvent event))
  set : ∀ account key value,
    Exec.Keeps R (Run.set (Invoker.accountStorageKey account key) value)
  remove : ∀ account key, Exec.Keeps R (Run.remove (Invoker.accountStorageKey account key))
  allocateAccount : ∀ codeId, Exec.Keeps R (Invoker.allocateAccount codeId)
  claimAccount : ∀ account codeId w, w.storage.codeIdentifier account = .ok none →
    Exec.wp (Invoker.claimAccount account codeId) (fun _ w' => R w w') w
  switchCode : ∀ account codeId, Exec.Keeps R (Invoker.switchCode host account codeId)
  rollback : ∀ w w', w.storage.Extends w'.storage → R w w' → R w (w.rollback w')

/-! ### Queries -/

namespace QueryRule

variable {R : World → World → Prop} (rule : QueryRule R)
include rule

theorem keeps_pure {α : Type} (a : α) : Exec.Keeps R (pure a : Run α) := Exec.Keeps.pure rule.refl a

theorem keeps_ofExcept {α : Type} (r : SdkResult α) : Exec.Keeps R (Exec.ofExcept r : Run α) :=
  Exec.Keeps.ofExcept rule.refl r

theorem keeps_throw {α : Type} (e : ErrorCode) : Exec.Keeps R (Exec.throw e : Run α) :=
  Exec.Keeps.throw rule.refl e

theorem keeps_bind {α β : Type} {m : Run α} {f : α → Run β} (hm : Exec.Keeps R m)
    (hf : ∀ a, Exec.Keeps R (f a)) : Exec.Keeps R (m >>= f) :=
  Exec.Keeps.bind rule.trans hm hf

theorem keeps_get (key : Bytes) : Exec.Keeps R (Run.get key) := fun w => rule.countRead w

theorem keeps_getAccountCodeIdentifierForAccount (account : AccountId) :
    Exec.Keeps R (getAccountCodeIdentifierForAccount account) :=
  fun w => wp_getAccountCodeIdentifierForAccount.mpr (rule.countRead w)

theorem keeps_withCode (host : Host) (codeId : String) :
    Exec.Keeps R (Invoker.withCode host codeId) := by
  refine rule.keeps_bind (rule.keeps_ofExcept _) fun code => ?_
  cases code with
  | none => exact rule.keeps_throw _
  | some code => exact rule.keeps_pure _

theorem keeps_codeOf (host : Host) (account : AccountId) :
    Exec.Keeps R (Invoker.codeOf host account) := by
  refine rule.keeps_bind (rule.keeps_getAccountCodeIdentifierForAccount account) fun codeId => ?_
  cases codeId with
  | none => exact rule.keeps_throw _
  | some codeId => exact rule.keeps_withCode host codeId

theorem keeps_handleStorageQuery (request : InvokeRequest) :
    Exec.Keeps R (Invoker.handleStorageQuery request) := by
  unfold Invoker.handleStorageQuery
  split
  · refine rule.keeps_bind (rule.keeps_ofExcept _) fun storageGet => ?_
    refine rule.keeps_bind (rule.keeps_get _) fun value => ?_
    exact rule.keeps_bind (rule.charge _ _) fun _ => rule.keeps_ofExcept _
  · exact rule.keeps_throw _

theorem keeps_run_lift {α : Type} {h : (op : EnvOp) → Run op.Ans}
    (hh : ∀ target data, Exec.Keeps R (h (.doQuery target data))) (p : QueryProgram α) :
    Exec.Keeps R (p.lift.run h) := by
  induction p with
  | ret r => exact rule.keeps_ofExcept r
  | call op k ih => exact rule.keeps_bind (Exec.Keeps.attempt (hh _ _)) fun r => ih _

theorem keeps_doQuery (host : Host) (fuel : Nat) (invoker : Invoker) (target : AccountId)
    (data : InvokeRequest) :
    Exec.Keeps R (environment host fuel invoker (.doQuery target data)) := by
  induction fuel generalizing invoker target data with
  | zero => exact Exec.Keeps.outOfFuel
  | succ fuel ih =>
    show Exec.Keeps R (Invoker.doQuery host (environment host fuel) invoker target data)
    unfold Invoker.doQuery
    split
    · exact rule.keeps_throw _
    · split
      · exact rule.keeps_handleStorageQuery data
      · exact rule.keeps_bind (rule.keeps_codeOf host target) fun code =>
          rule.keeps_run_lift (ih _) _

end QueryRule

/-! ### Calls -/

namespace CallRule

variable {host : Host} {R S : World → World → Prop}

theorem and (hr : CallRule host R) (hs : CallRule host S) :
    CallRule host fun w w' => R w w' ∧ S w w' where
  refl w := ⟨hr.refl w, hs.refl w⟩
  trans _ _ _ h₁ h₂ := ⟨hr.trans h₁.1 h₂.1, hs.trans h₁.2 h₂.2⟩
  countRead w := ⟨hr.countRead w, hs.countRead w⟩
  checkpoint := hr.checkpoint.and hs.checkpoint
  nextUniqueObjectId := hr.nextUniqueObjectId.and hs.nextUniqueObjectId
  emitEvent event := (hr.emitEvent event).and (hs.emitEvent event)
  charge charge size := (hr.charge charge size).and (hs.charge charge size)
  set account key value := (hr.set account key value).and (hs.set account key value)
  remove account key := (hr.remove account key).and (hs.remove account key)
  allocateAccount codeId := (hr.allocateAccount codeId).and (hs.allocateAccount codeId)
  claimAccount account codeId w h :=
    Exec.wp_and (hr.claimAccount account codeId w h) (hs.claimAccount account codeId w h)
  switchCode account codeId := (hr.switchCode account codeId).and (hs.switchCode account codeId)
  rollback w w' hext h := ⟨hr.rollback w w' hext h.1, hs.rollback w w' hext h.2⟩

/-! ### Frames -/

section Frames

variable (rule : CallRule host R)
include rule

theorem keeps_handleStorageExec (invoker : Invoker) (request : InvokeRequest) :
    Exec.Keeps R (invoker.handleStorageExec request) := by
  unfold Invoker.handleStorageExec
  split
  · refine rule.keeps_bind (rule.keeps_ofExcept _) fun storageSet => ?_
    refine rule.keeps_bind (rule.charge _ _) fun _ => ?_
    exact rule.keeps_bind (rule.set _ _ _) fun _ => rule.keeps_ofExcept _
  · split
    · refine rule.keeps_bind (rule.keeps_ofExcept _) fun storageRemove => ?_
      refine rule.keeps_bind (rule.charge _ _) fun _ => ?_
      exact rule.keeps_bind (rule.remove _ _) fun _ => rule.keeps_ofExcept _
    · exact rule.keeps_throw _

theorem keeps_emitEvent (invoker : Invoker) (name : String) (data : Bytes) :
    Exec.Keeps R (invoker.emitEvent name data) :=
  rule.keeps_bind (rule.keeps_ofExcept _) fun _ => rule.emitEvent _

theorem keeps_uniqueId (invoker : Invoker) : Exec.Keeps R invoker.uniqueId :=
  rule.keeps_bind rule.nextUniqueObjectId fun _ => rule.keeps_ofExcept _

end Frames

/-! ### Nested frames -/

section Nested

variable (rule : CallRule host R) {nested : Environment}
  (hnested : ∀ invoker op, Exec.Keeps R (nested invoker op))
include rule hnested

variable (invoker : Invoker)

theorem keeps_run {α : Type} (p : Program α) : Exec.Keeps R (p.run (nested invoker)) :=
  Prog.run_keeps rule.refl rule.trans (hnested invoker) p

theorem keeps_createAccount (codeId : String) (message : Message) (funds : List FungibleAsset) :
    Exec.Keeps R (Invoker.createAccount host nested invoker codeId message funds) := by
  refine rule.keeps_bind (rule.keeps_ofExcept _) fun _ => ?_
  refine rule.keeps_bind (rule.allocateAccount _) fun account => ?_
  refine rule.keeps_bind (rule.keeps_codeOf host _) fun code => ?_
  exact rule.keeps_bind (rule.keeps_run hnested _ _) fun _ => rule.keeps_pure _

theorem keeps_registerAccountAtId (account : AccountId) (codeId : String) (initMsg : Message) :
    Exec.Keeps R (Invoker.registerAccountAtId host nested invoker account codeId initMsg) := by
  intro w
  refine Exec.wp_bind.mpr (wp_getAccountCodeIdentifierForAccount.mpr ?_)
  have hread := rule.countRead w
  cases hcode : w.storage.codeIdentifier account with
  | error e => exact hread
  | ok found =>
    cases found with
    | some _ => exact hread
    | none =>
      refine Exec.wp_bind.mpr ?_
      cases hvalid : validateCodeId host.isAlphanumeric codeId with
      | error e => exact hread
      | ok _ =>
        have hclaim := rule.claimAccount account codeId w.countRead hcode
        refine Exec.wp_bind.mpr (Exec.wp_mono (fun r w' h => ?_) hclaim)
        have hr := rule.trans hread h
        cases r with
        | error e => exact hr
        | ok _ =>
          refine Exec.wp_mono (fun _ _ h => rule.trans hr h) ?_
          refine rule.keeps_bind (rule.keeps_withCode host codeId) (fun code => ?_) w'
          exact rule.keeps_bind (rule.keeps_run hnested _ _) fun _ => rule.keeps_pure _

theorem keeps_migrate (request : InvokeRequest) (funds : List FungibleAsset) :
    Exec.Keeps R (Invoker.migrate host nested invoker request funds) := by
  refine rule.keeps_bind (rule.keeps_ofExcept _) fun req => ?_
  split
  · exact rule.keeps_throw _
  · exact rule.keeps_bind (rule.switchCode _ _) fun _ => hnested _ _

theorem keeps_handleSystemExec (request : InvokeRequest) (funds : List FungibleAsset) :
    Exec.Keeps R (Invoker.handleSystemExec host nested invoker request funds) := by
  unfold Invoker.handleSystemExec
  split
  · refine rule.keeps_bind (rule.keeps_ofExcept _) fun req => ?_
    refine rule.keeps_bind (rule.keeps_createAccount hnested _ _ _ _) fun created => ?_
    exact rule.keeps_ofExcept _
  · split
    · refine rule.keeps_bind (rule.keeps_ofExcept _) fun req => ?_
      refine rule.keeps_bind (rule.keeps_registerAccountAtId hnested _ _ _ _) fun _ => ?_
      exact rule.keeps_ofExcept _
    · split
      · exact rule.keeps_migrate hnested _ _ _
      · exact rule.keeps_throw _

theorem keeps_doQuery (target : AccountId) (data : InvokeRequest) :
    Exec.Keeps R (Invoker.doQuery host nested invoker target data) := by
  unfold Invoker.doQuery
  split
  · exact rule.keeps_throw _
  · split
    · exact rule.keeps_handleStorageQuery data
    · exact rule.keeps_bind (rule.keeps_codeOf host _) fun code => rule.keeps_run hnested _ _

theorem keeps_execWithoutTransfers (target : AccountId) (data : InvokeRequest)
    (funds : List FungibleAsset) :
    Exec.Keeps R (Invoker.execWithoutTransfers host nested invoker target data funds) := by
  unfold Invoker.execWithoutTransfers
  split
  · exact rule.keeps_handleSystemExec hnested _ _ _
  · split
    · exact rule.keeps_handleStorageExec _ _
    · exact rule.keeps_bind (rule.keeps_codeOf host _) fun code => rule.keeps_run hnested _ _

theorem keeps_handleTransfers (target : AccountId) (funds : List FungibleAsset) :
    Exec.Keeps R (Invoker.handleTransfers host nested invoker target funds) := by
  unfold Invoker.handleTransfers
  split
  · exact rule.keeps_pure _
  · split
    · exact rule.keeps_throw _
    · refine Exec.Keeps.forM rule.refl rule.trans (fun asset => ?_) funds
      refine rule.keeps_bind (rule.keeps_ofExcept _) fun request => ?_
      exact rule.keeps_bind (rule.keeps_execWithoutTransfers hnested _ _ _ _) fun _ =>
        rule.keeps_pure _

/-- A call of `doExec` that succeeds keeps the relation.  One that fails does too, and its world is
rolled back from one that the relation allows to the state before the call. -/
theorem wp_doExec (hext : ∀ w w', R w w' → w.storage.Extends w'.storage) (invoker : Invoker)
    (target : AccountId) (data : InvokeRequest) (funds : List FungibleAsset) (w : World) :
    Exec.wp (Invoker.doExec host nested invoker target data funds) (fun r w' =>
      match r with
      | .ok _ => R w w'
      | .error _ => w' = w ∨ ∃ w₁, R w w₁ ∧ w' = w.rollback w₁) w := by
  unfold Invoker.doExec
  split
  · exact .inl rfl
  -- The work after the checkpoint; its failure goes back to the checkpoint, that is to `w`.
  have hcheck : R w { w with storage := w.storage.checkpoint.2 } := rule.checkpoint w
  refine Exec.wp_bind.mpr ?_
  have settle : ∀ (e : ErrorCode) (w₁ : World), R w w₁ →
      Exec.wp (Run.restoreCheckpoint w.storage.checkpoint.1 >>= fun _ =>
        (Exec.throw e : Run InvokeResponse)) (fun r w' =>
          match r with
          | .ok _ => R w w'
          | .error _ => w' = w ∨ ∃ w₁, R w w₁ ∧ w' = w.rollback w₁) w₁ := by
    intro e w₁ h
    refine Exec.wp_bind.mpr ?_
    unfold Exec.wp
    rw [restoreCheckpoint_apply (hext w w₁ h)]
    exact .inr ⟨w₁, h, rfl⟩
  refine Exec.wp_bind.mpr (Exec.wp_attempt.mpr (Exec.wp_mono ?_
    (rule.keeps_handleTransfers hnested invoker target funds _)))
  intro transferred w₁ h₁
  have h₁ := rule.trans hcheck h₁
  cases transferred with
  | error e => exact settle e w₁ h₁
  | ok _ =>
    refine Exec.wp_bind.mpr (Exec.wp_attempt.mpr (Exec.wp_mono ?_
      (rule.keeps_execWithoutTransfers hnested invoker target data funds w₁)))
    intro response w₂ h₂
    have h₂ := rule.trans h₁ h₂
    cases response with
    | error e => exact settle e w₂ h₂
    | ok response => exact h₂

theorem keeps_answer (hext : ∀ w w', R w w' → w.storage.Extends w'.storage) (invoker : Invoker)
    (op : EnvOp) : Exec.Keeps R (Invoker.answer host nested invoker op) := by
  cases op with
  | doExec target data funds =>
    intro w
    refine Exec.wp_mono ?_ (rule.wp_doExec hnested hext invoker target data funds w)
    intro r w' h
    cases r with
    | ok _ => exact h
    | error _ =>
      rcases h with rfl | ⟨w₁, h, rfl⟩
      · exact rule.refl _
      · exact rule.rollback w w₁ (hext w w₁ h) h
  | doQuery target data => exact rule.keeps_doQuery hnested invoker target data
  | emitEvent name data => exact rule.keeps_emitEvent invoker name data
  | uniqueId => exact rule.keeps_uniqueId invoker

end Nested

theorem keeps_environment (rule : CallRule host R)
    (hext : ∀ w w', R w w' → w.storage.Extends w'.storage) (fuel : Nat) (invoker : Invoker)
    (op : EnvOp) : Exec.Keeps R (environment host fuel invoker op) :=
  Handler.fuel_keeps (fun _ hnested => rule.keeps_answer hnested hext) fuel invoker op

end CallRule

/-! ### Relations that hold across every operation -/

/-- One operation on an execution state.  Only keys of account storage are removed. -/
inductive ExecutionState.Step (s : ExecutionState) : ExecutionState → Prop
  | metrics (metrics : ExecutionMetrics) : Step s { s with metrics }
  | nextUniqueObjectId : Step s s.nextUniqueObjectId.2
  | emitEvent {event : Event} {s' : ExecutionState} (h : s.emitEvent event = .ok s') : Step s s'
  | set {key : Bytes} {value : Message} {s' : ExecutionState} (h : s.set key value = .ok s') :
      Step s s'
  | remove {account : AccountId} {key : Bytes} {s' : ExecutionState}
      (h : s.remove (Invoker.accountStorageKey account key) = .ok s') : Step s s'

/-- What a relation must allow when it holds across every operation. -/
structure StepRule (R : World → World → Prop) : Prop where
  refl : ∀ w, R w w
  trans : ∀ ⦃a b c⦄, R a b → R b c → R a c
  storage : ∀ w s, w.storage.Step s → R w { w with storage := s }
  charge : ∀ w c, w.gasCounter.Charged c → R w { w with gasCounter := c }
  note : ∀ w op, R w { w with history := op :: w.history }
  rollback : ∀ w w', w.storage.Extends w'.storage → R w w' → R w (w.rollback w')

namespace StepRule

variable {R : World → World → Prop} (rule : StepRule R)
include rule

theorem countRead (w : World) : R w w.countRead := rule.storage w _ (.metrics _)

theorem keeps_update (hf : ∀ s s', f s = .ok s' → s.Step s') : Exec.Keeps R (Run.update f) :=
  fun w => wp_update (fun s h => rule.storage w s (hf _ _ h)) fun _ _ => rule.refl w

theorem keeps_set (key : Bytes) (value : Message) : Exec.Keeps R (Run.set key value) :=
  rule.keeps_update fun _ _ h => .set h

theorem keeps_charge (charge : StorageGasConfig → UInt64) (size : UInt64) :
    Exec.Keeps R (Run.charge (·.consumeStorageGas charge size)) :=
  fun w => wp_charge (fun c h => rule.charge w c (GasCounter.consumeStorageGas_charged h))
    fun _ _ => rule.refl w

theorem keeps_note (op : AccountOp) : Exec.Keeps R (Run.note op) := fun w => rule.note w op

theorem keeps_setAccountCodeIdentifierForAccount (account : AccountId) (codeId : String) :
    Exec.Keeps R (setAccountCodeIdentifierForAccount account codeId) :=
  Exec.Keeps.bind rule.trans (Exec.Keeps.ofExcept rule.refl _) fun _ => rule.keeps_set _ _

theorem keeps_nextAccountNumber : Exec.Keeps R nextAccountNumber := by
  refine Exec.Keeps.bind rule.trans (fun w => rule.countRead w) fun stored => ?_
  refine Exec.Keeps.bind rule.trans (Exec.Keeps.ofExcept rule.refl _) fun last => ?_
  refine Exec.Keeps.bind rule.trans (Exec.Keeps.ofExcept rule.refl _) fun message => ?_
  exact Exec.Keeps.bind rule.trans (rule.keeps_set _ _) fun _ => Exec.Keeps.pure rule.refl _

theorem keeps_allocateAccount (codeId : String) :
    Exec.Keeps R (Invoker.allocateAccount codeId) := by
  refine Exec.Keeps.bind rule.trans (Exec.Keeps.read rule.refl _) fun before => ?_
  refine Exec.Keeps.bind rule.trans rule.keeps_nextAccountNumber fun account => ?_
  refine Exec.Keeps.bind rule.trans (rule.keeps_note _) fun _ => ?_
  exact Exec.Keeps.bind rule.trans (rule.keeps_setAccountCodeIdentifierForAccount _ _) fun _ =>
    Exec.Keeps.pure rule.refl _

theorem keeps_claimAccount (account : AccountId) (codeId : String) :
    Exec.Keeps R (Invoker.claimAccount account codeId) := by
  refine Exec.Keeps.bind rule.trans (Exec.Keeps.read rule.refl _) fun before => ?_
  refine Exec.Keeps.bind rule.trans (Exec.Keeps.ofExcept rule.refl _) fun message => ?_
  refine Exec.Keeps.bind rule.trans (rule.keeps_charge _ _) fun _ => ?_
  exact Exec.Keeps.bind rule.trans (rule.keeps_set _ _) fun _ => rule.keeps_note _

theorem keeps_switchCode (host : Host) (account : AccountId) (codeId : String) :
    Exec.Keeps R (Invoker.switchCode host account codeId) := by
  refine Exec.Keeps.bind rule.trans
    (fun w => wp_getAccountCodeIdentifierForAccount.mpr (rule.countRead w)) fun found => ?_
  cases found with
  | none => exact Exec.Keeps.throw rule.refl _
  | some current =>
    refine Exec.Keeps.bind rule.trans (Exec.Keeps.ofExcept rule.refl _) fun code => ?_
    split
    · exact Exec.Keeps.throw rule.refl _
    · split
      · exact Exec.Keeps.throw rule.refl _
      · refine Exec.Keeps.bind rule.trans (Exec.Keeps.read rule.refl _) fun before => ?_
        exact Exec.Keeps.bind rule.trans (rule.keeps_setAccountCodeIdentifierForAccount _ _)
          fun _ => rule.keeps_note _

theorem callRule (host : Host) : CallRule host R where
  refl := rule.refl
  trans := rule.trans
  countRead := rule.countRead
  checkpoint w := rule.storage w _ (.metrics _)
  nextUniqueObjectId w := rule.storage w _ .nextUniqueObjectId
  emitEvent _ := rule.keeps_update fun _ _ h => .emitEvent h
  charge := rule.keeps_charge
  set _ _ _ := rule.keeps_set _ _
  remove _ _ := rule.keeps_update fun _ _ h => .remove h
  allocateAccount := rule.keeps_allocateAccount
  claimAccount account codeId w _ := rule.keeps_claimAccount account codeId w
  switchCode := rule.keeps_switchCode host
  rollback := rule.rollback

end StepRule

theorem ExecutionState.Step.extends {s s' : ExecutionState} (h : s.Step s') : s.Extends s' := by
  cases h with
  | metrics _ => exact .of_eq rfl rfl rfl rfl
  | nextUniqueObjectId => exact .of_eq rfl rfl rfl rfl
  | emitEvent h => exact .emitEvent h
  | set h => exact .set h
  | remove h => exact .remove h

theorem extends_stepRule : StepRule fun w w' => w.storage.Extends w'.storage where
  refl w := .refl w.storage
  trans _ _ _ h₁ h₂ := h₁.trans h₂
  storage _ _ h := h.extends
  charge w _ _ := .refl w.storage
  note w _ := .refl w.storage
  rollback _ _ hext _ := .of_eq hext.base rfl rfl rfl

/-- Every call lets the state grow, and a relation that the rule allows holds across it. -/
theorem CallRule.keeps {host : Host} {R : World → World → Prop} (rule : CallRule host R)
    (fuel : Nat) (invoker : Invoker) (op : EnvOp) :
    Exec.Keeps (fun w w' => w.storage.Extends w'.storage ∧ R w w')
      (environment host fuel invoker op) :=
  ((extends_stepRule.callRule host).and rule).keeps_environment (fun _ _ h => h.1) fuel invoker op

theorem CallRule.keeps_call {host : Host} {R : World → World → Prop} (rule : CallRule host R)
    (fuel : Nat) (invoker : Invoker) (op : EnvOp) :
    Exec.Keeps R (environment host fuel invoker op) :=
  fun w => Exec.wp_mono (fun _ _ h => h.2) (rule.keeps fuel invoker op w)

end Evolve
