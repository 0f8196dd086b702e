import Mathlib
import Evolve.Rpc.InitChain

/-! The heights of the executor service.  `set_final` checks that the height is not above the
current one, but not that it is at or above the height that is final already, and `execute_txs` does
not compare its height with either. -/

namespace Evolve.Evnode

open Machine Borsh Effects Eth Interleave

structure SetFinalRequest where
  blockHeight : UInt64

/-- What the requests change, with the height that is final. -/
structure ServiceState (crypto : Crypto) where
  chain : ChainState crypto
  finalizedHeight : UInt64

namespace ServiceState

variable {crypto : Crypto}

def initialized (s : ServiceState crypto) : Bool := s.chain.executor.initialized

def currentHeight (s : ServiceState crypto) : UInt64 := s.chain.executor.currentHeight

end ServiceState

/-! ### Requests -/

section

variable {crypto : Crypto}

abbrev ServiceHandler (crypto : Crypto) := Exec (ServiceState crypto) Status

def onChain {α : Type} (m : Exec (ChainState crypto) Status α) : ServiceHandler crypto α :=
  Exec.zoom ServiceState.chain (fun chain s => { s with chain }) m

def onExecutor {α : Type} (m : ExecutorServiceImpl.Handler crypto α) : ServiceHandler crypto α :=
  onChain (Exec.zoom ChainState.executor (fun executor s => { s with executor }) m)

/-- `init_chain` with no other request in between: it has four steps. -/
def initChain (runGenesis : RunGenesis) (request : InitChainRequest) :
    Exec (ChainState crypto) Status InitChainResponse := fun s =>
  match alone (InitCall.step runGenesis) () 4 s (.start request) with
  | some (s', answer) => .done (answer, s')
  | none => .outOfFuel

def setFinal (request : SetFinalRequest) : ServiceHandler crypto Unit := do
  onExecutor ExecutorServiceImpl.ensureInitialized
  let current ← Exec.read ServiceState.currentHeight
  if request.blockHeight > current then
    Exec.throw (EvnodeError.invalidArgument ("cannot finalize height " ++
      toString request.blockHeight ++ " > current height " ++ toString current)).toStatus
  else Exec.modify fun s => { s with finalizedHeight := request.blockHeight }

inductive ServiceRequest where
  | initChain (request : InitChainRequest)
  | executeTxs (request : ExecuteTxsRequest)
  | setFinal (request : SetFinalRequest)

def serve (fuel : Nat) (service : ExecutorServiceImpl crypto) (runGenesis : RunGenesis) :
    ServiceRequest → ServiceHandler crypto Unit
  | .initChain request => do
    let _ ← onChain (initChain runGenesis request)
  | .executeTxs request => do
    let _ ← onExecutor (service.executeTxs fuel request)
  | .setFinal request => setFinal request

/-! ### What a request does to the heights -/

variable {fuel : Nat} {service : ExecutorServiceImpl crypto} {runGenesis : RunGenesis}

variable {s s' : ServiceState crypto}

theorem onChain_done {α : Type} {m : Exec (ChainState crypto) Status α} {r : Except Status α} :
    onChain m s = .done (r, s') ↔ ∃ chain, m s.chain = .done (r, chain) ∧ s' = { s with chain } :=
  Exec.zoom_done

theorem onExecutor_done {α : Type} {m : ExecutorServiceImpl.Handler crypto α} {r : Except Status α}
    :
    onExecutor m s = .done (r, s') ↔ ∃ executor, m s.chain.executor = .done (r, executor) ∧
      s' = { s with chain := { s.chain with executor } } := by
  unfold onExecutor
  rw [onChain_done]
  constructor
  · rintro ⟨chain, hchain, rfl⟩
    obtain ⟨executor, hexecutor, rfl⟩ := Exec.zoom_done.mp hchain
    exact ⟨executor, hexecutor, rfl⟩
  · rintro ⟨executor, hexecutor, rfl⟩
    exact ⟨_, Exec.zoom_done.mpr ⟨executor, hexecutor, rfl⟩, rfl⟩

theorem initChain_done {request : InitChainRequest} {s s' : ChainState crypto}
    {r : Except Status InitChainResponse} (h : initChain runGenesis request s = .done (r, s')) :
    s' = s ∨ s.executor.initialized = false ∧ s'.executor.initialized = true := by
  unfold initChain at h
  have hstart : InitCall.step runGenesis () s (.start request) =
    some (s, InitCall.check runGenesis s request) := rfl
  unfold InitCall.check at hstart
  split at hstart
  · rw [alone_returns hstart] at h
    cases h
    exact .inl rfl
  · rename_i hnew
    split at hstart
    · rw [alone_returns hstart] at h
      cases h
      exact .inl rfl
    · dsimp only at hstart
      split at hstart
      · rw [alone_returns hstart] at h
        cases h
        exact .inl rfl
      · rw [alone_next hstart] at h
        cases h
        exact .inr ⟨Bool.eq_false_iff.mpr hnew, rfl⟩

theorem finishBlock_heights {prevStateRoot : B256} {block : ServerBlock (TxContext crypto)}
    {result : BlockResult} {changes : List CoreStateChange} {s s' : ExecutorState crypto}
    {r : Except Status ExecuteTxsResponse}
    (h : service.finishBlock prevStateRoot block result changes s = .done (r, s')) :
    s'.initialized = s.initialized ∧
      (s'.currentHeight = s.currentHeight ∨ s'.currentHeight = block.number) := by
  rcases Exec.bind_done.mp h with ⟨root, s₁, hpersist, hrest⟩ | ⟨_, hpersist, -⟩
  · obtain ⟨pendingChanges, storage, rfl, -⟩ := ExecutorServiceImpl.persist_done hpersist
    cases hrest
    exact ⟨rfl, .inr rfl⟩
  · obtain ⟨pendingChanges, storage, rfl, -⟩ := ExecutorServiceImpl.persist_done hpersist
    exact ⟨rfl, .inl rfl⟩

theorem executeTxs_heights {request : ExecuteTxsRequest} {s s' : ExecutorState crypto}
    {r : Except Status ExecuteTxsResponse}
    (h : service.executeTxs fuel request s = .done (r, s')) :
    s'.initialized = s.initialized ∧
      (s'.currentHeight = s.currentHeight ∨
        s.initialized = true ∧ s'.currentHeight = request.blockHeight) := by
  unfold ExecutorServiceImpl.executeTxs at h
  rw [Exec.bind_apply, ExecutorServiceImpl.ensureInitialized_apply] at h
  by_cases hinit : s.initialized = true
  · rw [if_pos hinit] at h
    dsimp only at h
    split at h
    · cases h
      exact ⟨rfl, .inl rfl⟩
    · rcases Exec.bind_done.mp h with ⟨_, _, ⟨⟩, h⟩ | ⟨_, ⟨⟩, _⟩
      rcases Exec.bind_done.mp h with ⟨prevStateRoot, _, hresolve, h⟩ | ⟨_, hresolve, -⟩
      · obtain ⟨-, rfl⟩ := Prod.mk.inj (Outcome.done.inj hresolve)
        split at h
        · obtain ⟨hinitialized, hheight⟩ := finishBlock_heights h
          exact ⟨hinitialized, hheight.imp_right fun hnumber => ⟨hinit, hnumber⟩⟩
        all_goals cases h
      · obtain ⟨-, rfl⟩ := Prod.mk.inj (Outcome.done.inj hresolve)
        exact ⟨rfl, .inl rfl⟩
  · rw [if_neg hinit] at h
    cases h
    exact ⟨rfl, .inl rfl⟩

variable {r : Except Status Unit}

theorem setFinal_done {request : SetFinalRequest} (h : setFinal request s = .done (r, s')) :
    s' = s ∨ request.blockHeight ≤ s.currentHeight ∧
      s' = { s with finalizedHeight := request.blockHeight } ∧ s.initialized = true := by
  rcases Exec.bind_done.mp h with ⟨_, s₁, hinit, h⟩ | ⟨_, hinit, -⟩
  · obtain ⟨executor, hexecutor, rfl⟩ := onExecutor_done.mp hinit
    have hinitialized : s.initialized = true := by
      rw [ExecutorServiceImpl.ensureInitialized_apply] at hexecutor
      split at hexecutor
      · assumption
      · cases hexecutor
    cases ExecutorServiceImpl.ensureInitialized_ok hexecutor
    rcases Exec.bind_done.mp h with ⟨_, _, ⟨⟩, h⟩ | ⟨_, ⟨⟩, _⟩
    split at h
    · cases h
      exact .inl rfl
    · rename_i hheight
      cases h
      exact .inr ⟨UInt64.not_lt.mp hheight, rfl, hinitialized⟩
  · obtain ⟨executor, hexecutor, rfl⟩ := onExecutor_done.mp hinit
    rw [ExecutorServiceImpl.ensureInitialized_apply] at hexecutor
    obtain ⟨-, rfl⟩ := Prod.mk.inj (Outcome.done.inj hexecutor)
    exact .inl rfl

/-- What a request can do to the heights: leave them, initialize the chain, set the current height,
or set the finalized height of an initialized chain to one that is not above the current height. -/
inductive HeightStep (s s' : ServiceState crypto) : ServiceRequest → Prop
  | same {request : ServiceRequest} (initialized : s'.initialized = s.initialized)
      (current : s'.currentHeight = s.currentHeight)
      (finalized : s'.finalizedHeight = s.finalizedHeight) : HeightStep s s' request
  | init {request : InitChainRequest} (before : s.initialized = false)
      (after : s'.initialized = true) (finalized : s'.finalizedHeight = s.finalizedHeight) :
      HeightStep s s' (.initChain request)
  | execute {request : ExecuteTxsRequest} (before : s.initialized = true)
      (after : s'.initialized = true) (current : s'.currentHeight = request.blockHeight)
      (finalized : s'.finalizedHeight = s.finalizedHeight) : HeightStep s s' (.executeTxs request)
  | final {request : SetFinalRequest} (before : s.initialized = true)
      (after : s'.initialized = true) (current : s'.currentHeight = s.currentHeight)
      (notAbove : request.blockHeight ≤ s.currentHeight)
      (finalized : s'.finalizedHeight = request.blockHeight) : HeightStep s s' (.setFinal request)

theorem dropped_done {α : Type} {m : ServiceHandler crypto α}
    (h : (do let _ ← m : ServiceHandler crypto Unit) s = .done (r, s')) :
    ∃ r', m s = .done (r', s') := by
  rcases Exec.bind_done.mp h with ⟨_, _, hm, h⟩ | ⟨_, hm, -⟩
  · cases h
    exact ⟨_, hm⟩
  · exact ⟨_, hm⟩

theorem heightStep_of_serve {request : ServiceRequest}
    (h : serve fuel service runGenesis request s = .done (r, s')) : HeightStep s s' request := by
  cases request with
  | initChain request =>
    obtain ⟨_, hinit⟩ := dropped_done h
    obtain ⟨chain, hchain, rfl⟩ := onChain_done.mp hinit
    rcases initChain_done hchain with rfl | ⟨hbefore, hafter⟩
    · exact .same rfl rfl rfl
    · exact .init hbefore hafter rfl
  | executeTxs request =>
    obtain ⟨_, hexecute⟩ := dropped_done h
    obtain ⟨executor, hexecutor, rfl⟩ := onExecutor_done.mp hexecute
    obtain ⟨hinitialized, hsame | ⟨hbefore, hcurrent⟩⟩ := executeTxs_heights hexecutor
    · exact .same hinitialized hsame rfl
    · exact .execute hbefore (hinitialized.trans hbefore) hcurrent rfl
  | setFinal request =>
    rcases setFinal_done h with rfl | ⟨hnotAbove, rfl, hinitialized⟩
    · exact .same rfl rfl rfl
    · exact .final hinitialized hinitialized rfl hnotAbove rfl

/-! ### Sequences of requests -/

/-- A request that was answered, with the states before and after it. -/
structure Answered (crypto : Crypto) where
  request : ServiceRequest
  before : ServiceState crypto
  after : ServiceState crypto

variable (fuel service runGenesis) in
inductive Serves (start : ServiceState crypto) :
    List (Answered crypto) → ServiceState crypto → Prop
  | refl : Serves start [] start
  | serve {log : List (Answered crypto)} {s s' : ServiceState crypto} {request : ServiceRequest}
      {r : Except Status Unit} (serves : Serves start log s)
      (answered : serve fuel service runGenesis request s = .done (r, s')) :
      Serves start (log ++ [⟨request, s, s'⟩]) s'

/-- The height at which a block is executed, or which is made final. -/
def ServiceRequest.height : ServiceRequest → Option UInt64
  | .initChain _ => none
  | .executeTxs request => some request.blockHeight
  | .setFinal request => some request.blockHeight

def AtOrAboveFinal (answered : Answered crypto) : Prop :=
  ∀ height ∈ answered.request.height, answered.before.finalizedHeight ≤ height

instance : DecidablePred (AtOrAboveFinal : Answered crypto → Prop) := fun answered =>
  match h : answered.request.height with
  | none => isTrue (by simp [AtOrAboveFinal, h])
  | some height =>
    decidable_of_iff (answered.before.finalizedHeight ≤ height) (by simp [AtOrAboveFinal, h])

/-- The finalized height has not decreased, and is not above the current height. -/
def FinalityKept (answered : Answered crypto) : Prop :=
  answered.before.finalizedHeight ≤ answered.after.finalizedHeight ∧
    answered.after.finalizedHeight ≤ answered.after.currentHeight

structure HeightsOrdered (s : ServiceState crypto) : Prop where
  notAbove : s.finalizedHeight ≤ s.currentHeight
  zero : s.initialized = false → s.finalizedHeight = 0

theorem HeightsOrdered.step {request : ServiceRequest} (h : HeightsOrdered s)
    (hstep : HeightStep s s' request) (habove : AtOrAboveFinal ⟨request, s, s'⟩) :
    HeightsOrdered s' ∧ FinalityKept ⟨request, s, s'⟩ := by
  cases hstep with
  | same initialized current finalized =>
    have hnotAbove : s'.finalizedHeight ≤ s'.currentHeight := by
      rw [finalized, current]
      exact h.notAbove
    refine ⟨⟨hnotAbove, fun hnew => ?_⟩, UInt64.le_of_eq finalized.symm, hnotAbove⟩
    rw [finalized]
    exact h.zero (initialized.symm.trans hnew)
  | init before after finalized =>
    have hnotAbove : s'.finalizedHeight ≤ s'.currentHeight := by
      rw [finalized, h.zero before]
      exact UInt64.zero_le
    refine ⟨⟨hnotAbove, fun hnew => ?_⟩, UInt64.le_of_eq finalized.symm, hnotAbove⟩
    cases after.symm.trans hnew
  | execute before after current finalized =>
    have hnotAbove : s'.finalizedHeight ≤ s'.currentHeight := by
      rw [finalized, current]
      exact habove _ rfl
    refine ⟨⟨hnotAbove, fun hnew => ?_⟩, UInt64.le_of_eq finalized.symm, hnotAbove⟩
    cases after.symm.trans hnew
  | final before after current notAbove finalized =>
    have hnotAbove : s'.finalizedHeight ≤ s'.currentHeight := by
      rw [finalized, current]
      exact notAbove
    refine ⟨⟨hnotAbove, fun hnew => ?_⟩, ?_, hnotAbove⟩
    · cases after.symm.trans hnew
    · change s.finalizedHeight ≤ s'.finalizedHeight
      rw [finalized]
      exact habove _ rfl

/-- In every sequence of requests to a new service, all of which name heights at or above the
finalized one, the finalized height never decreases and is never above the current height. -/
theorem finalityKept_of_atOrAboveFinal {start s : ServiceState crypto}
    {log : List (Answered crypto)} (h : Serves fuel service runGenesis start log s)
    (hzero : start.finalizedHeight = 0)
    (habove : ∀ answered ∈ log, AtOrAboveFinal answered) :
    ∀ answered ∈ log, FinalityKept answered := by
  suffices HeightsOrdered s ∧ ∀ answered ∈ log, FinalityKept answered from this.2
  induction h with
  | refl =>
    refine ⟨⟨?_, fun _ => hzero⟩, by rintro answered ⟨⟩⟩
    rw [hzero]
    exact UInt64.zero_le
  | @serve log s s' request r _ answered ih =>
    obtain ⟨hordered, hkept⟩ := ih fun a ha => habove a (List.mem_append_left _ ha)
    obtain ⟨hordered', hlast⟩ := hordered.step (heightStep_of_serve answered)
      (habove _ (List.mem_append_right _ (List.mem_singleton_self _)))
    refine ⟨hordered', fun a ha => ?_⟩
    rcases List.mem_append.mp ha with hlog | hnew
    · exact hkept a hlog
    · obtain rfl := List.mem_singleton.mp hnew
      exact hlast

end

/-! ### A height that is final and then not -/

/-- A service that has no accounts and executes empty blocks. -/
def newService : ServiceState sampleCrypto where
  chain := {
    executor := { ExecutorServiceImpl.sampleState [] with initialized := false }
    chainId := ""
    initialHeight := 0
    genesisTime := 0 }
  finalizedHeight := 0

def emptyGenesis : RunGenesis := fun _ _ _ => .ok []

def play : List ServiceRequest → List (Answered sampleCrypto) →
    ServiceState sampleCrypto → Option (List (Answered sampleCrypto))
  | [], log, _ => some log
  | request :: requests, log, s =>
    match serve 3 ExecutorServiceImpl.sampleService emptyGenesis request s with
    | .done (_, s') => play requests (log ++ [⟨request, s, s'⟩]) s'
    | _ => none

theorem serves_of_play {requests : List ServiceRequest}
    {log log' : List (Answered sampleCrypto)}
    {start s : ServiceState sampleCrypto}
    (h : Serves 3 ExecutorServiceImpl.sampleService emptyGenesis start log s)
    (hplay : play requests log s = some log') :
    ∃ s', Serves 3 ExecutorServiceImpl.sampleService emptyGenesis start log' s' := by
  induction requests generalizing log s with
  | nil =>
    cases hplay
    exact ⟨s, h⟩
  | cons request requests ih =>
    unfold play at hplay
    split at hplay
    · rename_i hserve
      exact ih (h.serve hserve) hplay
    · cases hplay

/-- The finalized heights before and after each request, and the current height after it. -/
def heights (log : List (Answered sampleCrypto)) : List (UInt64 × UInt64 × UInt64) :=
  log.map fun answered => (answered.before.finalizedHeight, answered.after.finalizedHeight,
    answered.after.currentHeight)

def emptyBlockAt (height : UInt64) : ServiceRequest := .executeTxs ⟨[], height, none, []⟩

/-- Blocks 6 and 7 after the initial height 5, made final one after the other. -/
def advancing : List ServiceRequest :=
  [.initChain ⟨none, 5, "chain"⟩, .setFinal ⟨5⟩, emptyBlockAt 6, emptyBlockAt 7, .setFinal ⟨7⟩]

theorem advancing_plays :
    (play advancing [] newService).map (fun log => (heights log,
        decide (∀ answered ∈ log, AtOrAboveFinal answered))) =
      some ([(0, 0, 5), (0, 5, 5), (5, 5, 6), (5, 5, 7), (5, 7, 7)], true) := by
  decide +kernel

theorem finalityKept_advancing :
    ∃ log s, Serves 3 ExecutorServiceImpl.sampleService emptyGenesis newService log s ∧
      heights log = [(0, 0, 5), (0, 5, 5), (5, 5, 6), (5, 5, 7), (5, 7, 7)] ∧
      ∀ answered ∈ log, FinalityKept answered := by
  obtain ⟨log, hplay, hresult⟩ := Option.map_eq_some_iff.mp advancing_plays
  obtain ⟨hheights, habove⟩ := Prod.mk.inj hresult
  obtain ⟨s, hserves⟩ := serves_of_play .refl hplay
  exact ⟨log, s, hserves, hheights,
    finalityKept_of_atOrAboveFinal hserves rfl (of_decide_eq_true habove)⟩

/-- Block 1 is executed after height 5 is final, and then height 1 is made final. -/
def retreating : List ServiceRequest :=
  [.initChain ⟨none, 5, "chain"⟩, .setFinal ⟨5⟩, emptyBlockAt 1, .setFinal ⟨1⟩]

theorem retreating_plays :
    (play retreating [] newService).map heights =
      some [(0, 0, 5), (0, 5, 5), (5, 5, 1), (5, 1, 1)] := by
  decide +kernel

/-- First the finalized height is above the current one, then it decreases. -/
theorem retreating_not_finalityKept :
    ∃ log s, Serves 3 ExecutorServiceImpl.sampleService emptyGenesis newService log s ∧
      heights log = [(0, 0, 5), (0, 5, 5), (5, 5, 1), (5, 1, 1)] ∧
      ¬ ∀ answered ∈ log, FinalityKept answered := by
  obtain ⟨log, hplay, hheights⟩ := Option.map_eq_some_iff.mp retreating_plays
  obtain ⟨s, hserves⟩ := serves_of_play .refl hplay
  refine ⟨log, s, hserves, hheights, fun hkept => ?_⟩
  have hmem : ((5, 5, 1) : UInt64 × UInt64 × UInt64) ∈ heights log := by
    rw [hheights]
    simp
  obtain ⟨answered, hanswered, heq⟩ := List.mem_map.mp hmem
  obtain ⟨-, hafter⟩ := Prod.mk.inj heq
  obtain ⟨hfinalized, hcurrent⟩ := Prod.mk.inj hafter
  have hnotAbove := (hkept answered hanswered).2
  rw [hfinalized, hcurrent] at hnotAbove
  revert hnotAbove
  decide

end Evolve.Evnode
