import Mathlib
import Evolve.Stf.TraceRule

/-! What a trace can show: every activity in it is nested as the invoker nests activities, every
write comes from an activity that may make it, and a key that no activity writes keeps its value. -/

namespace Evolve

open Machine Borsh Effects

/-! ### Writes -/

/-- The keys that the innermost activity may write. -/
inductive Stack.Writes : Stack → Bytes → Prop
  | storage {frame : Invoker} {data : InvokeRequest} {funds : List FungibleAsset}
      {paid : List Payment} {rest : Stack} {key : Bytes}
      (function : data.function = InvokableMessage.functionIdentifier StorageSetRequest ∨
        data.function = InvokableMessage.functionIdentifier StorageRemoveRequest) :
      Writes (.exec frame storageAccountId data funds paid :: rest)
        (Invoker.accountStorageKey frame.whoami key)
  | accountNumber {frame : Invoker} {funds : List FungibleAsset} {rest : Stack} :
      Writes (.create frame funds :: rest) accountNumberKey
  | create {frame : Invoker} {funds : List FungibleAsset} {rest : Stack} {account : AccountId} :
      Writes (.create frame funds :: rest) (accountCodeIdentifierKey account)
  | register {frame : Invoker} {account : AccountId} {rest : Stack} :
      Writes (.register frame account :: rest) (accountCodeIdentifierKey account)
  | migrate {frame : Invoker} {funds : List FungibleAsset} {rest : Stack} :
      Writes (.migrate frame funds :: rest) (accountCodeIdentifierKey frame.whoami)

/-- Creations and migrations do not charge for what they write. -/
def Stack.writesFree : Stack → Bool
  | .create _ _ :: _ => true
  | .migrate _ _ :: _ => true
  | _ => false

/-- What a write of the innermost activity does. -/
structure Stack.Written (stack : Stack) (key : Bytes) (entry : Option Message) (w w' : World) :
    Prop where
  lookup : ∀ k, w'.storage.lookup k = if key = k then .ok entry else w.storage.lookup k
  free : stack.writesFree = true → w'.gasCounter = w.gasCounter
  charged : stack.writesFree = false →
    w.gasCounter.consumeWriteGas key entry = .ok w'.gasCounter

/-- What must be allowed when a relation is kept by every single write. -/
structure WriteRule (Ok : Nat → Stack → Prop) (R : World → List Action → Option World → Prop) :
    Prop extends NestingRule Ok R where
  write : ∀ {fuel : Nat} {stack : Stack} {w w' : World} {key : Bytes} {entry : Option Message},
    Ok fuel stack → stack.Writes key → stack.Written key entry w w' →
    R w [.write stack w w' key entry] (some w')

variable {funds : List FungibleAsset} {data : InvokeRequest} {inner : Invoker}

namespace WriteRule

variable {Ok : Nat → Stack → Prop} {R : World → List Action → Option World → Prop}
  (rule : WriteRule Ok R) {fuel : Nat} {stack : Stack} {key : Bytes}
include rule

theorem keeps_write {entry : Option Message} {f : ExecutionState → SdkResult ExecutionState}
    (hok : Ok fuel stack) (hwrites : stack.Writes key) (hfree : stack.writesFree = true)
    (hf : ∀ s s', f s = .ok s' →
      ∀ k, s'.lookup k = if key = k then .ok entry else s.lookup k) :
    Logged.Keeps R (Logged.observe (Traced.noteWrite stack key entry) (Run.update f)) := by
  intro w
  unfold Logged.observe Logged.last Run.update
  dsimp only
  cases h : f w.storage with
  | ok s => exact rule.write hok hwrites ⟨hf _ _ h, fun _ => rfl, by simp [hfree]⟩
  | error e => exact rule.refl w

theorem keeps_chargedWrite {entry : Option Message} {f : ExecutionState → SdkResult ExecutionState}
    {charge : GasCounter → SdkResult GasCounter} (hok : Ok fuel stack)
    (hwrites : stack.Writes key) (hfree : stack.writesFree = false)
    (hcharge : ∀ c, charge c = c.consumeWriteGas key entry)
    (hf : ∀ s s', f s = .ok s' →
      ∀ k, s'.lookup k = if key = k then .ok entry else s.lookup k) :
    Logged.Keeps R (Logged.observe (Traced.noteWrite stack key entry) (do
      Run.charge charge
      Run.update f)) := by
  intro w
  unfold Logged.observe Logged.last
  dsimp only
  rw [Exec.bind_apply]
  unfold Run.charge
  cases hgas : charge w.gasCounter with
  | error e => exact rule.refl w
  | ok c =>
    rw [hcharge] at hgas
    dsimp only [Run.update]
    cases h : f w.storage with
    | ok s =>
      have hwritten : stack.Written key entry w { w with storage := s, gasCounter := c } :=
        ⟨hf _ _ h, by simp [hfree], fun _ => hgas⟩
      exact rule.write hok hwrites hwritten
    | error e =>
      have hsilent : w.Silent { w with gasCounter := c } :=
        ⟨rfl, GasCounter.consumeWriteGas_charged hgas⟩
      exact rule.silent _ _ hsilent

theorem keeps_set (hok : Ok fuel stack) (hwrites : stack.Writes key)
    (hfree : stack.writesFree = true) (value : Message) :
    Logged.Keeps R (Traced.set stack key value) :=
  rule.keeps_write hok hwrites hfree fun _ _ => ExecutionState.lookup_set

theorem keeps_chargedSet (hok : Ok fuel stack) (hwrites : stack.Writes key)
    (hfree : stack.writesFree = false) (value : Message) :
    Logged.Keeps R (Traced.chargedSet stack key value) :=
  rule.keeps_chargedWrite hok hwrites hfree (fun _ => rfl) fun _ _ => ExecutionState.lookup_set

theorem keeps_chargedRemove (hok : Ok fuel stack) (hwrites : stack.Writes key)
    (hfree : stack.writesFree = false) : Logged.Keeps R (Traced.chargedRemove stack key) :=
  rule.keeps_chargedWrite hok hwrites hfree (fun _ => rfl) fun _ _ => ExecutionState.lookup_remove

theorem keeps_note (op : AccountOp) : Logged.Keeps R (Logged.lift (Run.note op)) :=
  rule.keeps_lift (.note op)

theorem keeps_read : Logged.Keeps R (Logged.lift (Exec.read World.storage : Run ExecutionState)) :=
  rule.keeps_lift (.read _)

theorem keeps_setCode {account : AccountId} (hok : Ok fuel stack)
    (hwrites : stack.Writes (accountCodeIdentifierKey account))
    (hfree : stack.writesFree = true) (codeId : String) :
    Logged.Keeps R (Traced.setAccountCodeIdentifierForAccount stack account codeId) :=
  rule.keeps_bind (rule.keeps_ofExcept _) fun _ => rule.keeps_set hok hwrites hfree _

theorem keeps_handleStorageExec {frame : Invoker} {paid : List Payment}
    (hok : Ok fuel (.exec frame storageAccountId data funds paid :: stack)) :
    Logged.Keeps R (Traced.handleStorageExec
      (.exec frame storageAccountId data funds paid :: stack) frame data) := by
  unfold Traced.handleStorageExec
  split
  · rename_i hset
    refine rule.keeps_bind (rule.keeps_ofExcept _) fun storageSet => ?_
    refine rule.keeps_bind (rule.keeps_chargedSet hok (.storage (.inl hset)) rfl _) fun _ => ?_
    exact rule.keeps_ofExcept _
  · split
    · rename_i hremove
      refine rule.keeps_bind (rule.keeps_ofExcept _) fun storageRemove => ?_
      refine rule.keeps_bind (rule.keeps_chargedRemove hok (.storage (.inr hremove)) rfl) ?_
      exact fun _ => rule.keeps_ofExcept _
    · exact rule.keeps_throw _

theorem keeps_allocateAccount {frame : Invoker} (hok : Ok fuel (.create frame funds :: stack))
    (codeId : String) :
    Logged.Keeps R (Traced.allocateAccount (.create frame funds :: stack) codeId) := by
  refine rule.keeps_bind rule.keeps_read fun before => ?_
  refine rule.keeps_bind ?_ fun account => ?_
  · refine rule.keeps_bind (rule.keeps_lift (.get _)) fun stored => ?_
    refine rule.keeps_bind (rule.keeps_ofExcept _) fun last => ?_
    refine rule.keeps_bind (rule.keeps_ofExcept _) fun message => ?_
    exact rule.keeps_bind (rule.keeps_set hok .accountNumber rfl _) fun _ => rule.keeps_pure _
  · refine rule.keeps_bind (rule.keeps_note _) fun _ => ?_
    exact rule.keeps_bind (rule.keeps_setCode hok .create rfl _) fun _ => rule.keeps_pure _

theorem keeps_claimAccount {frame : Invoker} {account : AccountId}
    (hok : Ok fuel (.register frame account :: stack)) (codeId : String) :
    Logged.Keeps R (Traced.claimAccount (.register frame account :: stack) account codeId) := by
  refine rule.keeps_bind rule.keeps_read fun before => ?_
  refine rule.keeps_bind (rule.keeps_ofExcept _) fun message => ?_
  exact rule.keeps_bind (rule.keeps_chargedSet hok .register rfl _) fun _ => rule.keeps_note _

theorem keeps_switchCode (host : Host) {frame : Invoker}
    (hok : Ok fuel (.migrate frame funds :: stack)) (codeId : String) :
    Logged.Keeps R
      (Traced.switchCode host (.migrate frame funds :: stack) frame.whoami codeId) := by
  refine rule.keeps_bind (rule.keeps_lift (.getAccountCodeIdentifierForAccount _)) fun found => ?_
  cases found with
  | none => exact rule.keeps_throw _
  | some current =>
    refine rule.keeps_bind (rule.keeps_ofExcept _) fun code => ?_
    split
    · exact rule.keeps_throw _
    · split
      · exact rule.keeps_throw _
      · refine rule.keeps_bind rule.keeps_read fun before => ?_
        exact rule.keeps_bind (rule.keeps_setCode hok .migrate rfl _) fun _ => rule.keeps_note _

theorem actionRule (host : Host) : ActionRule host Ok R where
  toNestingRule := rule.toNestingRule
  storage hok := rule.keeps_handleStorageExec hok
  allocate _ hok := rule.keeps_allocateAccount hok _
  claim _ hok := rule.keeps_claimAccount hok _
  switch _ hok := rule.keeps_switchCode host hok _

end WriteRule

/-! ### Keys that are not written -/

def Action.key : Action → Option Bytes
  | .begins _ _ => none
  | .write _ _ _ key _ => some key

def Action.stack : Action → Stack
  | .begins stack _ => stack
  | .write stack _ _ _ _ => stack

def Action.before : Action → World
  | .begins _ w => w
  | .write _ w _ _ _ => w

/-- A key that is not written keeps its value, whatever is rolled back. -/
def KeepsUnwritten (w : World) (l : List Action) (last : Option World) : Prop :=
  ∀ w' ∈ last, ∀ key, (∀ action ∈ l, action.key ≠ some key) →
    w'.storage.lookup key = w.storage.lookup key

theorem keepsUnwritten_rule : WriteRule (fun _ _ => True) KeepsUnwritten where
  refl _ := by
    rintro _ ⟨⟩ key -
    rfl
  trans a l b l' o h₁ h₂ w' hw' key hkey := by
    have hb := h₁ b rfl key fun action h => hkey action (List.mem_append_left _ h)
    have hw := h₂ w' hw' key fun action h => hkey action (List.mem_append_right _ h)
    exact hw.trans hb
  begets _ _ _ := trivial
  migrated _ _ := trivial
  exhausted _ _ := by
    rintro _ ⟨⟩
  begins _ _ := by
    rintro _ ⟨⟩ key -
    rfl
  silent w w' h := by
    rintro _ ⟨⟩ key -
    rw [h.lookup]
  rollback w l w' hext _ := by
    rintro _ ⟨⟩ key -
    simp only [World.rollback, ExecutionState.rollback, ExecutionState.lookup, hext.base]
  write _ _ hwritten := by
    rintro _ ⟨⟩ k hk
    rw [hwritten.lookup, if_neg fun h => hk _ (List.mem_singleton_self _) (congrArg some h)]

theorem keepsUnwritten_traceRule (host : Host) :
    TraceRule host (fun _ _ => True) KeepsUnwritten :=
  (keepsUnwritten_rule.actionRule host).traceRule (fun _ _ _ => trivial) fun _ _ => trivial

variable {w w' : World}

theorem written_of_lookup_ne {α : Type} {m : Traced α} (hm : Logged.Keeps KeepsUnwritten m)
    {r : SdkResult α} {key : Bytes} (h : m.exec w = .done (r, w'))
    (hkey : w'.storage.lookup key ≠ w.storage.lookup key) :
    ∃ action ∈ m.log w, action.key = some key := by
  by_contra hnone
  push Not at hnone
  exact hkey (hm.done h w' rfl key hnone)

theorem written_of_call {host : Host} {fuel : Nat} {frame : Invoker} {op : EnvOp}
    {r : SdkResult op.Ans} {key : Bytes} (h : environment host fuel frame op w = .done (r, w'))
    (hkey : w'.storage.lookup key ≠ w.storage.lookup key) :
    ∃ action ∈ (tracedEnvironment host fuel [] frame op).log w, action.key = some key := by
  rw [← exec_tracedEnvironment host fuel []] at h
  exact written_of_lookup_ne ((keepsUnwritten_traceRule host).keeps_call fuel trivial)
    h hkey

theorem written_of_executeTxPhase {Tx Block : Type} [Transaction Tx] {host : Host} {fuel : Nat}
    {stf : Stf Tx Block} {tx : Tx} {sender : AccountId} {block : BlockContext}
    {r : SdkResult InvokeResponse} {key : Bytes}
    (h : stf.executeTxPhase host fuel tx sender block w = .done (r, w'))
    (hkey : w'.storage.lookup key ≠ w.storage.lookup key) :
    ∃ action ∈ (Traced.executeTxPhase host fuel stf tx sender block).log w,
      action.key = some key := by
  rw [← Traced.exec_executeTxPhase] at h
  exact written_of_lookup_ne ((keepsUnwritten_traceRule host).keeps_executeTxPhase
    (fun _ => trivial) fun _ _ => trivial) h hkey

/-! ### One entry -/

/-- The worlds of an action. -/
def Action.worlds : Action → List World
  | .begins _ w => [w]
  | .write _ w w' _ _ => [w, w']

/-- The store has a value with the property under the key. -/
def World.Holds (key : Bytes) (P : Option Message → Prop) (w : World) : Prop :=
  ∃ entry, w.storage.lookup key = .ok entry ∧ P entry

/-- What the action writes under the key, if it does, has the property. -/
def Action.Stores (key : Bytes) (P : Option Message → Prop) : Action → Prop
  | .begins _ _ => True
  | .write _ _ _ key' entry => key' = key → P entry

/-- An entry keeps a property as long as only values with the property are written, whatever is
rolled back; and where the entry has it after a write, the written value has it. -/
structure KeepsEntry (key : Bytes) (P : Option Message → Prop) (w : World) (l : List Action)
    (last : Option World) : Prop where
  stores : ∀ action ∈ l, (∀ w ∈ action.worlds, w.Holds key P) → action.Stores key P
  holds : w.Holds key P → (∀ action ∈ l, action.Stores key P) →
    (∀ action ∈ l, ∀ w ∈ action.worlds, w.Holds key P) ∧ ∀ w' ∈ last, w'.Holds key P

theorem World.Holds.of_sameStore {key : Bytes} {P : Option Message → Prop} (h : w.Holds key P)
    (hsame : w.SameStore w') : w'.Holds key P := by
  obtain ⟨entry, hentry, hP⟩ := h
  exact ⟨entry, (congrFun hsame key).trans hentry, hP⟩

theorem keepsEntry_nil {key : Bytes} {P : Option Message → Prop} (hsame : w.SameStore w') :
    KeepsEntry key P w [] (some w') := by
  refine ⟨by rintro _ ⟨⟩, fun h _ => ⟨by rintro _ ⟨⟩, ?_⟩⟩
  rintro _ ⟨⟩
  exact h.of_sameStore hsame

theorem keepsEntry_rule (key : Bytes) (P : Option Message → Prop) :
    WriteRule (fun _ _ => True) (KeepsEntry key P) where
  refl w := keepsEntry_nil rfl
  trans a l b l' o h₁ h₂ := by
    refine ⟨fun action h => (List.mem_append.mp h).elim (h₁.stores action) (h₂.stores action),
      fun ha hstores => ?_⟩
    obtain ⟨hstores₁, hstores₂⟩ := List.forall_mem_append.mp hstores
    obtain ⟨hworlds₁, hb⟩ := h₁.holds ha hstores₁
    obtain ⟨hworlds₂, ho⟩ := h₂.holds (hb b rfl) hstores₂
    exact ⟨List.forall_mem_append.mpr ⟨hworlds₁, hworlds₂⟩, ho⟩
  begets _ _ _ := trivial
  migrated _ _ := trivial
  exhausted _ _ := ⟨by rintro _ ⟨⟩, fun _ _ => ⟨by rintro _ ⟨⟩, by rintro _ ⟨⟩⟩⟩
  begins _ w := by
    refine ⟨fun action h _ => ?_, fun h _ => ⟨fun action h' => ?_, by rintro _ ⟨⟩; exact h⟩⟩
    · cases List.mem_singleton.mp h
      trivial
    · cases List.mem_singleton.mp h'
      exact fun w hw => List.mem_singleton.mp hw ▸ h
  silent w w' h := keepsEntry_nil h.lookup
  rollback w l w' hext h := by
    refine ⟨h.stores, fun hw hstores => ⟨(h.holds hw hstores).1, ?_⟩⟩
    rintro _ ⟨⟩
    refine hw.of_sameStore (funext fun key => ?_)
    simp only [World.rollback, ExecutionState.rollback, ExecutionState.lookup, hext.base]
  write {_ _ w w' key' entry} _ _ hwritten := by
    constructor
    · intro action h hworlds
      cases List.mem_singleton.mp h
      rintro rfl
      obtain ⟨entry', hentry', hP⟩ := hworlds w' (by simp [Action.worlds])
      rw [hwritten.lookup, if_pos rfl] at hentry'
      cases hentry'
      exact hP
    · intro hw hstores
      have hw' : w'.Holds key P := by
        by_cases hkey : key' = key
        · refine ⟨entry, ?_, hstores _ (List.mem_singleton_self _) hkey⟩
          rw [hwritten.lookup, if_pos hkey]
        · obtain ⟨found, hfound, hP⟩ := hw
          exact ⟨found, by rw [hwritten.lookup, if_neg hkey, hfound], hP⟩
      refine ⟨fun action h => ?_, by rintro _ ⟨⟩; exact hw'⟩
      cases List.mem_singleton.mp h
      simp [Action.worlds, hw, hw']

theorem keepsEntry_traceRule (host : Host) (key : Bytes) (P : Option Message → Prop) :
    TraceRule host (fun _ _ => True) (KeepsEntry key P) :=
  ((keepsEntry_rule key P).actionRule host).traceRule (fun _ _ _ => trivial) fun _ _ => trivial

/-! ### Nesting -/

/-- The stacks that can arise from the given ones. -/
inductive Live (Root : Stack → Prop) : Stack → Prop
  | root {stack : Stack} (root : Root stack) : Live Root stack
  | begets {a b : Activity} {stack : Stack} (live : Live Root (a :: stack)) (begets : Begets a b) :
      Live Root (b :: a :: stack)
  | issue {entry : Entry} {frame : Invoker} {code : AccountCode} {request : InvokeRequest}
      {op : EnvOp} {stack : Stack} (live : Live Root (.code entry frame code request :: stack))
      (calls : (entry.program code frame.env request).Calls op) :
      Live Root (.call frame op :: .code entry frame code request :: stack)
  | migrated {frame : Invoker} {funds : List FungibleAsset} {message : InvokeRequest}
      {stack : Stack} (live : Live Root (.migrate frame funds :: stack)) :
      Live Root (.call (frame.branchExec runtimeAccountId [])
        (.doExec frame.whoami message funds) :: .migrate frame funds :: stack)
  | hook {phase : Phase} {frame : Invoker} {op : EnvOp} {stack : Stack}
      (live : Live Root (.phase phase frame :: stack)) :
      Live Root (.call frame op :: .phase phase frame :: stack)

namespace Activity

def opensFrame : Activity → Bool
  | .code _ _ _ _ => true
  | .migrate _ _ => true
  | _ => false

/-- The frame that an activity runs in. -/
def frame : Activity → Invoker
  | .phase _ frame => frame
  | .call frame _ => frame
  | .exec frame _ _ _ _ => frame
  | .create frame _ => frame
  | .register frame _ => frame
  | .migrate frame _ => frame.branchExec runtimeAccountId []
  | .code _ frame _ _ => frame

end Activity

theorem Live.tail {Root : Stack → Prop} {a : Activity} {stack : Stack} (h : Live Root (a :: stack))
    (hroot : ¬ Root (a :: stack)) : Live Root stack := by
  cases h with
  | root hr => exact absurd hr hroot
  | begets live _ => exact live
  | migrated live => exact live
  | issue live _ => exact live
  | hook live => exact live

theorem Live.getLast? {root : Activity} {stack : Stack} (h : Live (· = [root]) stack) :
    stack.getLast? = some root := by
  induction h with
  | root hr => rw [hr]; rfl
  | begets _ _ ih => rwa [List.getLast?_cons_cons]
  | issue _ _ ih => rwa [List.getLast?_cons_cons]
  | migrated _ ih => rwa [List.getLast?_cons_cons]
  | hook _ ih => rwa [List.getLast?_cons_cons]

/-- An activity opens its frame or runs in that of the activity around it. -/
theorem Live.frame_eq {Root : Stack → Prop} {a b : Activity} {stack : Stack}
    (h : Live Root (a :: b :: stack)) (hroot : ¬ Root (a :: b :: stack)) :
    a.opensFrame = true ∨ a.frame = b.frame := by
  cases h with
  | root hr => exact absurd hr hroot
  | begets live hbegets =>
    cases hbegets <;> first | exact .inl rfl | exact .inr rfl
  | migrated live => exact .inr rfl
  | issue live _ => exact .inr rfl
  | hook live => exact .inr rfl

/-! ### Calls of doExec -/

/-- The stacks that a phase starts with: the phase, or the registration of its sender in it. -/
inductive Opens : Stack → Prop
  | phase {phase : Phase} {frame : Invoker} : Opens [.phase phase frame]
  | register {phase : Phase} {frame : Invoker} {account : AccountId} :
      Opens [.register frame account, .phase phase frame]

/-- The stacks that a trace starts with: those of a phase, or account code. -/
inductive Starts : Stack → Prop
  | opens {stack : Stack} (opens : Opens stack) : Starts stack
  | code {entry : Entry} {frame : Invoker} {code : AccountCode} {request : InvokeRequest} :
      Starts [.code entry frame code request]

abbrev InPhaseOf (frame : Invoker) (stack : Stack) : Prop :=
  ∃ phase, stack = [.phase phase frame]

theorem starts_of_inPhaseOf {frame : Invoker} {stack : Stack} (h : InPhaseOf frame stack) :
    Starts stack := by
  obtain ⟨_, rfl⟩ := h
  exact .opens .phase

/-- A call of `doExec` hands its own request to its target, or the request of a transfer to an asset
that it sends along. -/
def HandsOver (target : AccountId) (data : InvokeRequest) (funds : List FungibleAsset)
    (target' : AccountId) (data' : InvokeRequest) (funds' : List FungibleAsset) : Prop :=
  (target' = target ∧ data' = data ∧ funds' = funds) ∨
    ∃ asset ∈ funds, target' = asset.assetId ∧ funds' = [] ∧
      InvokeRequest.new (TransferMsg.mk target asset.amount) = .ok data'

theorem HandsOver.target_eq {target target' : AccountId} {data' : InvokeRequest}
    {funds' : List FungibleAsset} (h : HandsOver target data funds target' data' funds')
    (hfunction : data'.function ≠ InvokableMessage.functionIdentifier TransferMsg) :
    target = target' := by
  rcases h with ⟨rfl, -, -⟩ | ⟨asset, -, -, -, hnew⟩
  · rfl
  · exact absurd (InvokeRequest.new_spec hnew).1 hfunction

section

variable {Root : Stack → Prop} (hroot : ∀ {stack}, Root stack → Starts stack)
include hroot

theorem Live.exec_cases {target : AccountId} {paid : List Payment} {stack : Stack}
    (h : Live Root (.exec inner target data funds paid :: stack)) :
    ∃ target' data' funds' rest, stack = .call inner (.doExec target' data' funds') :: rest ∧
      Live Root stack ∧ HandsOver target' data' funds' target data funds := by
  cases h with
  | root hr => obtain ⟨⟨⟩⟩ := hroot hr
  | begets live hbegets =>
    cases hbegets with
    | transfer _ hmem hnew =>
      exact ⟨_, _, _, _, rfl, live, .inr ⟨_, hmem, rfl, rfl, hnew⟩⟩
    | deliver => exact ⟨_, _, _, _, rfl, live, .inl ⟨rfl, rfl, rfl⟩⟩

/-- Where the call of a frame comes from: the code of its account, a migration or the frame of the
phase. -/
theorem Live.doExec_cases {target : AccountId} {stack : Stack}
    (h : Live Root (.call inner (.doExec target data funds) :: stack)) :
    (∃ entry code request rest, stack = .code entry inner code request :: rest ∧ entry ≠ .query) ∨
      (∃ outer rest, stack = .migrate outer funds :: rest ∧ Live Root stack ∧
        outer.whoami = target ∧ inner = outer.branchExec runtimeAccountId []) ∨
      ∃ phase, stack = [.phase phase inner] := by
  cases h with
  | root hr => obtain ⟨⟨⟩⟩ := hroot hr
  | begets _ hbegets => cases hbegets
  | migrated live => exact .inr (.inl ⟨_, _, rfl, live, rfl, rfl⟩)
  | @issue entry _ code request _ _ live hcalls =>
    refine .inl ⟨entry, code, request, _, rfl, ?_⟩
    rintro rfl
    obtain ⟨op, hop⟩ := hcalls.of_rename
    cases hop
  | @hook phase _ _ _ live =>
    cases live with
    | root hr =>
      obtain ⟨⟨⟩⟩ := hroot hr
      exact .inr (.inr ⟨phase, rfl⟩)
    | begets _ hbegets => cases hbegets

end

/-! ### Every action -/

/-- The action comes from a stack that can arise, and a write is one that its activity makes. -/
def Action.Sound (Root : Stack → Prop) : Action → Prop
  | .begins stack _ => Live Root stack
  | .write stack w w' key entry =>
    Live Root stack ∧ stack.Writes key ∧ stack.Written key entry w w'

def AllSound (Root : Stack → Prop) (_ : World) (l : List Action) (_ : Option World) : Prop :=
  ∀ action ∈ l, action.Sound Root

theorem allSound_rule (Root : Stack → Prop) : WriteRule (fun _ => Live Root) (AllSound Root) where
  refl _ _ h := by cases h
  trans _ _ _ _ _ h₁ h₂ action h := (List.mem_append.mp h).elim (h₁ action) (h₂ action)
  begets live hbegets _ := .begets live hbegets
  migrated _ := .migrated
  exhausted _ _ _ h := by cases h
  begins hok _ action h := by
    rw [List.mem_singleton.mp h]
    exact hok
  silent _ _ _ _ h := by cases h
  rollback _ _ _ _ h := h
  write hok hwrites hwritten action h := by
    rw [List.mem_singleton.mp h]
    exact ⟨hok, hwrites, hwritten⟩

theorem allSound_traceRule (host : Host) (Root : Stack → Prop) :
    TraceRule host (fun _ => Live Root) (AllSound Root) :=
  ((allSound_rule Root).actionRule host).traceRule
    (fun hruntime hstorage live => .begets live (.execute hruntime hstorage)) .issue

/-- Every action of a call is nested as the invoker nests activities. -/
theorem sound_of_mem_call {host : Host} {fuel : Nat} {frame : Invoker} {op : EnvOp}
    {action : Action} (h : action ∈ (tracedEnvironment host fuel [] frame op).log w) :
    action.Sound (· = [.call frame op]) :=
  (allSound_traceRule host (· = [.call frame op])).keeps_call fuel (.root rfl) w action h

theorem sound_of_mem_executeTxPhase {Tx Block : Type} [Transaction Tx] {host : Host} {fuel : Nat}
    {stf : Stf Tx Block} {tx : Tx} {sender : AccountId} {block : BlockContext} {action : Action}
    (h : action ∈ (Traced.executeTxPhase host fuel stf tx sender block).log w) :
    action.Sound (InPhaseOf (Stf.executionFrame tx sender block)) :=
  (allSound_traceRule host _).keeps_executeTxPhase (fun phase => .root ⟨phase, rfl⟩)
    (fun phase _ => .hook (.root ⟨phase, rfl⟩)) w action h

end Evolve
