import Mathlib
import Evolve.Lib.Interleave
import Evolve.Rpc.Service

/-! Concurrent `execute_txs` requests.  A request holds the execution lock from before it checks its
previous state root until it has stored its own root, so that the requests form a chain in the order
in which they hold the lock, and one that fails changes nothing. -/

namespace Evolve.Evnode

open Machine Borsh Effects Eth Interleave

/-- What the requests share: the state of the service, and whether the execution lock is held. -/
structure ExecShared (crypto : Crypto) where
  executor : ExecutorState crypto
  locked : Bool

/-- Where a request is between two of its steps.  Other requests can run there. -/
inductive ExecCall where
  | start (request : ExecuteTxsRequest)
  | acquire (request : ExecuteTxsRequest)
  | resolve (request : ExecuteTxsRequest)
  | execute (request : ExecuteTxsRequest) (prevStateRoot : B256)
  | persist (request : ExecuteTxsRequest) (prevStateRoot : B256) (result : BlockResult)
      (changes : List CoreStateChange)
  | finalizePool (request : ExecuteTxsRequest) (result : BlockResult) (updatedStateRoot : B256)
  | storeHeight (request : ExecuteTxsRequest) (updatedStateRoot : B256)
  | storeRoot (request : ExecuteTxsRequest) (updatedStateRoot : B256)

/-- The answer to a request; there is none where the handler panics. -/
abbrev ExecAnswer := Option (Except Status ExecuteTxsResponse)

namespace ExecCall

def Starts : ExecCall → Prop
  | .start _ => True
  | _ => False

instance : DecidablePred Starts
  | .start _ => isTrue trivial
  | .acquire _ => isFalse id
  | .resolve _ => isFalse id
  | .execute .. => isFalse id
  | .persist .. => isFalse id
  | .finalizePool .. => isFalse id
  | .storeHeight .. => isFalse id
  | .storeRoot .. => isFalse id

def request : ExecCall → ExecuteTxsRequest
  | .start request => request
  | .acquire request => request
  | .resolve request => request
  | .execute request _ => request
  | .persist request .. => request
  | .finalizePool request .. => request
  | .storeHeight request _ => request
  | .storeRoot request _ => request

/-- The request holds the execution lock. -/
def holds : ExecCall → Bool
  | .start _ => false
  | .acquire _ => false
  | _ => true

section

variable {crypto : Crypto} (fuel : Nat) (service : ExecutorServiceImpl crypto)

/-- Where a request goes, and what it leaves: it releases the lock when it returns. -/
abbrev Steps (crypto : Crypto) := Option (ExecShared crypto × Progress ExecCall ExecAnswer)

variable (executor : ExecutorState crypto)

def goOn (call : ExecCall) : Steps crypto :=
  some (⟨executor, true⟩, .next call)

def release (answer : ExecAnswer) : Steps crypto :=
  some (⟨executor, false⟩, .returns answer)

def begin (s : ExecShared crypto) (request : ExecuteTxsRequest) : Progress ExecCall ExecAnswer :=
  if s.executor.initialized then
    if request.blockHeight = 0 then
      .returns (some (.error (EvnodeError.invalidArgument "block_height must be > 0").toStatus))
    else .next (.acquire request)
  else .returns (some (.error EvnodeError.chainNotInitialized.toStatus))

def executedInfo (request : ExecuteTxsRequest) (prevStateRoot : B256) (result : BlockResult)
    (changes : List CoreStateChange) : BlockExecutedInfo crypto where
  height := request.blockHeight
  timestamp := ExecutorServiceImpl.timestampToUnix request.timestamp
  stateChanges := changes
  blockResult := result
  stateRoot := computeStateRoot crypto prevStateRoot changes
  transactions := (service.block request).transactions

/-- A step of a request that holds the lock. -/
def locked : ExecCall → Steps crypto
  | .start _ => none
  | .acquire _ => none
  | .resolve request =>
    match ExecutorServiceImpl.resolvePrevStateRoot executor.lastStateRoot
      request.prevStateRoot with
    | .error e => release executor (some (.error e.toStatus))
    | .ok prevStateRoot => goOn executor (.execute request prevStateRoot)
  | .execute request prevStateRoot =>
    match service.executeBlock fuel executor.storage (service.block request) with
    | .done (.ok (result, _), w) =>
      goOn executor (.persist request prevStateRoot result w.storage.intoChanges)
    | .done (.error _, _) => release executor none
    | .panic => release executor none
    | .outOfFuel => none
  | .persist request prevStateRoot result changes =>
    match service.persist (executedInfo service request prevStateRoot result changes) executor with
    | .done (.ok updatedStateRoot, executor') =>
      goOn executor' (.finalizePool request result updatedStateRoot)
    | .done (.error status, executor') => release executor' (some (.error status))
    | .panic => release executor none
    | .outOfFuel => none
  | .finalizePool request result updatedStateRoot =>
    let hashes := ExecutorServiceImpl.executedHashes (service.block request) result
    goOn { executor with mempool := executor.mempool.map fun pool => pool.finalize hashes }
      (.storeHeight request updatedStateRoot)
  | .storeHeight request updatedStateRoot =>
    goOn { executor with currentHeight := request.blockHeight }
      (.storeRoot request updatedStateRoot)
  | .storeRoot _ updatedStateRoot =>
    release { executor with lastStateRoot := updatedStateRoot }
      (some (.ok ⟨updatedStateRoot.bytes, service.config.maxBytes⟩))

def step (_ : Unit) (s : ExecShared crypto) : ExecCall → Steps crypto
  | .start request => some (s, begin s request)
  | .acquire request => if s.locked then none else goOn s.executor (.resolve request)
  | call => locked fuel service s.executor call

/-! ### A request alone -/

/-- The steps of one request, with no other in between. -/
abbrev alone : Nat → ExecShared crypto → ExecCall → Option (ExecShared crypto × ExecAnswer) :=
  Interleave.alone (step fuel service) ()

variable {fuel service}

theorem alone_finishBlock {request : ExecuteTxsRequest} {prevStateRoot : B256}
    {result : BlockResult} {changes : List CoreStateChange} {s s' : ExecutorState crypto}
    {r : Except Status ExecuteTxsResponse}
    (h : service.finishBlock prevStateRoot (service.block request) result changes s =
      .done (r, s')) :
    alone fuel service 4 ⟨s, true⟩ (.persist request prevStateRoot result changes) =
      some (⟨s', false⟩, some r) := by
  have hpersists : ∀ {p}, service.persist (executedInfo service request prevStateRoot result
      changes) s = .done p → step fuel service () ⟨s, true⟩ (.persist request prevStateRoot result
        changes) = match p with
      | (.ok updatedStateRoot, executor') =>
        goOn executor' (.finalizePool request result updatedStateRoot)
      | (.error status, executor') => release executor' (some (.error status)) := by
    intro p hpersist
    dsimp only [step, locked]
    rw [hpersist]
    rcases p with ⟨_ | _, _⟩ <;> rfl
  rcases Exec.bind_done.mp h with ⟨updatedStateRoot, s₁, hpersist, hrest⟩ | ⟨e, hpersist, rfl⟩
  · refine (alone_next (hpersists hpersist)).trans ?_
    cases hrest
    rfl
  · exact alone_returns (hpersists hpersist)

theorem alone_resolve {request : ExecuteTxsRequest} {s s' : ExecutorState crypto}
    {r : Except Status ExecuteTxsResponse} (hinit : s.initialized = true)
    (hheight : request.blockHeight ≠ 0)
    (h : service.executeTxs fuel request s = .done (r, s')) :
    alone fuel service 6 ⟨s, true⟩ (.resolve request) = some (⟨s', false⟩, some r) := by
  unfold ExecutorServiceImpl.executeTxs at h
  rw [if_neg hheight, Exec.bind_apply, ExecutorServiceImpl.ensureInitialized_of hinit] at h
  rcases Exec.bind_done.mp h with ⟨_, _, ⟨⟩, h⟩ | ⟨_, ⟨⟩, _⟩
  cases hroot : ExecutorServiceImpl.resolvePrevStateRoot s.lastStateRoot request.prevStateRoot with
  | error e =>
    rw [hroot] at h
    cases h
    refine alone_returns ?_
    dsimp only [step, locked]
    rw [hroot]
    rfl
  | ok prevStateRoot =>
    have hresolve : step fuel service () ⟨s, true⟩ (.resolve request) =
        some (⟨s, true⟩, .next (.execute request prevStateRoot)) := by
      dsimp only [step, locked]
      rw [hroot]
      rfl
    refine (alone_next hresolve).trans ?_
    rw [hroot] at h
    rcases Exec.bind_done.mp h with ⟨_, _, ⟨⟩, hrest⟩ | ⟨_, ⟨⟩, _⟩
    split at hrest
    · rename_i result executed w hexecute
      have hexecutes : step fuel service () ⟨s, true⟩ (.execute request prevStateRoot) =
          some (⟨s, true⟩,
            .next (.persist request prevStateRoot result w.storage.intoChanges)) := by
        dsimp only [step, locked]
        rw [hexecute]
        rfl
      refine (alone_next hexecutes).trans ?_
      exact alone_finishBlock hrest
    all_goals cases hrest

/-- A request that is alone does what `executeTxs` does. -/
theorem alone_executeTxs {request : ExecuteTxsRequest} {s s' : ExecutorState crypto}
    {r : Except Status ExecuteTxsResponse}
    (h : service.executeTxs fuel request s = .done (r, s')) :
    alone fuel service 8 ⟨s, false⟩ (.start request) = some (⟨s', false⟩, some r) := by
  have hstart : step fuel service () ⟨s, false⟩ (.start request) =
    some (⟨s, false⟩, begin ⟨s, false⟩ request) := rfl
  by_cases hinit : s.initialized = true
  · rw [begin, if_pos hinit] at hstart
    by_cases hheight : request.blockHeight = 0
    · rw [if_pos hheight] at hstart
      unfold ExecutorServiceImpl.executeTxs at h
      rw [if_pos hheight, Exec.bind_apply, ExecutorServiceImpl.ensureInitialized_of hinit] at h
      cases h
      exact alone_returns hstart
    · rw [if_neg hheight] at hstart
      refine (alone_next hstart).trans ?_
      exact alone_resolve hinit hheight h
  · rw [begin, if_neg hinit] at hstart
    unfold ExecutorServiceImpl.executeTxs at h
    rw [Exec.bind_apply, ExecutorServiceImpl.ensureInitialized_apply, if_neg hinit] at h
    cases h
    exact alone_returns hstart

theorem alone_executeTxs_roomyTxs :
    ∃ response s', alone 3 ExecutorServiceImpl.sampleService 8
        ⟨ExecutorServiceImpl.sampleState ExecutorServiceImpl.roomyTxs, false⟩
        (.start (ExecutorServiceImpl.sampleRequest ExecutorServiceImpl.roomyTxs)) =
      some (⟨s', false⟩, some (.ok response)) := by
  obtain ⟨r, s', hrun, hr⟩ := ExecutorServiceImpl.roomyTxs_ends.exists
  cases r with
  | error e => cases hr
  | ok response => exact ⟨response, s', alone_executeTxs hrun⟩

/-! ### The requests in the order in which they hold the lock -/

variable {ι : Type}

abbrev Log (ι : Type) (crypto : Crypto) := List (Taken ι (ExecShared crypto) ExecCall ExecAnswer)

/-- A request that has held the lock, with the answer it got. -/
structure Turn (ι : Type) where
  thread : ι
  request : ExecuteTxsRequest
  answer : ExecAnswer

def Turn.holder (turn : Turn ι) : ι × ExecuteTxsRequest := (turn.thread, turn.request)

def Turn.success : Turn ι → Option (ExecuteTxsRequest × ExecuteTxsResponse)
  | ⟨_, request, some (.ok response)⟩ => some (request, response)
  | _ => none

/-- The turn that a step ends. -/
def turn (taken : Taken ι (ExecShared crypto) ExecCall ExecAnswer) : Option (Turn ι) :=
  match taken.call.holds, taken.progress with
  | true, .returns answer => some ⟨taken.thread, taken.call.request, answer⟩
  | _, _ => none

def turns (log : Log ι crypto) : List (Turn ι) := log.filterMap turn

/-- The request that gets the lock in a step. -/
def acquires (taken : Taken ι (ExecShared crypto) ExecCall ExecAnswer) :
    Option (ι × ExecuteTxsRequest) :=
  match taken.call with
  | .acquire request => some (taken.thread, request)
  | _ => none

def acquisitions (log : Log ι crypto) : List (ι × ExecuteTxsRequest) := log.filterMap acquires

def successes (log : Log ι crypto) : List (ExecuteTxsRequest × ExecuteTxsResponse) :=
  (turns log).filterMap Turn.success

/-- Each request that gives a previous root gives the root that the request before it returned, or
the root at the start. -/
def ChainsFrom : Bytes → List (ExecuteTxsRequest × ExecuteTxsResponse) → Prop
  | _, [] => True
  | root, (request, response) :: rest =>
    (request.prevStateRoot ≠ [] → request.prevStateRoot = root) ∧
      ChainsFrom response.updatedStateRoot rest

def SameRecords (s s' : ExecutorState crypto) : Prop :=
  s'.currentHeight = s.currentHeight ∧ s'.lastStateRoot = s.lastStateRoot ∧
    s'.pendingChanges = s.pendingChanges ∧ s'.mempool = s.mempool

/-- The requests leave the lock in the order in which they got it, those that succeed succeed while
they hold it and form a chain in this order, and no step of a request that fails changes the height,
the root, the pending changes or the mempool. -/
structure Linearized [DecidableEq ι] (root : Bytes) (log : Log ι crypto) : Prop where
  order : (turns log).map Turn.holder <+: acquisitions log
  inside : ∀ taken ∈ log, ∀ response, taken.progress = .returns (some (.ok response)) →
    taken.call.holds = true
  chain : ChainsFrom root (successes log)
  failures : ∀ done taken later answer, log = done ++ taken :: later →
    outcome taken.thread (taken :: later) = some answer →
    (∀ response, answer ≠ some (.ok response)) →
    SameRecords taken.before.executor taken.after.executor

/-- The root that the last request returned, or the root at the start. -/
def lastRoot : Bytes → List (ExecuteTxsRequest × ExecuteTxsResponse) → Bytes
  | root, [] => root
  | _, (_, response) :: rest => lastRoot response.updatedStateRoot rest

theorem chainsFrom_append {root : Bytes} {served : List (ExecuteTxsRequest × ExecuteTxsResponse)}
    {request : ExecuteTxsRequest} {response : ExecuteTxsResponse} (h : ChainsFrom root served)
    (hrequest : request.prevStateRoot ≠ [] → request.prevStateRoot = lastRoot root served) :
    ChainsFrom root (served ++ [(request, response)]) := by
  induction served generalizing root with
  | nil => exact ⟨hrequest, trivial⟩
  | cons first rest ih => exact ⟨h.1, ih h.2 hrequest⟩

theorem lastRoot_append (root : Bytes) (served : List (ExecuteTxsRequest × ExecuteTxsResponse))
    (request : ExecuteTxsRequest) (response : ExecuteTxsResponse) :
    lastRoot root (served ++ [(request, response)]) = response.updatedStateRoot := by
  induction served generalizing root with
  | nil => rfl
  | cons first rest ih => exact ih _

/-! ### What a step can do -/

/-- A request that is past the check of its previous root has given none or the last root. -/
def Checked : ExecCall → Prop
  | .start _ => True
  | .acquire _ => True
  | .resolve _ => True
  | call => call.request.prevStateRoot ≠ [] →
    call.request.prevStateRoot = executor.lastStateRoot.bytes

/-- The block of the request is persisted, and the request cannot fail any more. -/
def Persisted : ExecCall → Prop
  | .finalizePool .. => True
  | .storeHeight .. => True
  | .storeRoot .. => True
  | _ => False

theorem SameRecords.refl (s : ExecutorState crypto) : SameRecords s s := ⟨rfl, rfl, rfl, rfl⟩

/-- What a step of a request that does not hold the lock leads to. -/
inductive OutsideStep (s : ExecShared crypto) :
    ExecCall → ExecShared crypto → Progress ExecCall ExecAnswer → Prop
  | refused {request : ExecuteTxsRequest} {status : Status} :
      OutsideStep s (.start request) s (.returns (some (.error status)))
  | waits {request : ExecuteTxsRequest} :
      OutsideStep s (.start request) s (.next (.acquire request))
  | enters {request : ExecuteTxsRequest} (unlocked : s.locked = false) :
      OutsideStep s (.acquire request) ⟨s.executor, true⟩ (.next (.resolve request))

variable {call : ExecCall} {progress : Progress ExecCall ExecAnswer}
  {s s' shared : ExecShared crypto}

theorem outsideStep_of_step (hholds : call.holds = false)
    (h : step fuel service () s call = some (s', progress)) : OutsideStep s call s' progress := by
  cases call with
  | start request =>
    cases h
    unfold begin
    split
    · split
      · exact .refused
      · exact .waits
    · exact .refused
  | acquire request =>
    dsimp only [step] at h
    split at h
    · cases h
    · rename_i hunlocked
      cases h
      exact .enters (Bool.eq_false_iff.mpr hunlocked)
  | _ => cases hholds

/-- What a step of a request that holds the lock leads to.  Nothing is recorded before the block is
persisted, and a request that fails has recorded nothing. -/
inductive HolderStep (executor : ExecutorState crypto) (call : ExecCall) :
    ExecShared crypto → Progress ExecCall ExecAnswer → Prop
  | goesOn {executor' : ExecutorState crypto} {call' : ExecCall} (holds : call'.holds = true)
      (request : call'.request = call.request)
      (root : executor'.lastStateRoot = executor.lastStateRoot)
      (checked : Checked executor call → Checked executor' call')
      (records : Persisted call' ∨ ¬ Persisted call ∧ SameRecords executor executor') :
      HolderStep executor call ⟨executor', true⟩ (.next call')
  | fails {executor' : ExecutorState crypto} {answer : ExecAnswer}
      (failed : ∀ response, answer ≠ some (.ok response))
      (records : ¬ Persisted call ∧ SameRecords executor executor') :
      HolderStep executor call ⟨executor', false⟩ (.returns answer)
  | succeeds {executor' : ExecutorState crypto} {response : ExecuteTxsResponse}
      (root : executor'.lastStateRoot.bytes = response.updatedStateRoot)
      (checked : Checked executor call → call.request.prevStateRoot ≠ [] →
        call.request.prevStateRoot = executor.lastStateRoot.bytes) :
      HolderStep executor call ⟨executor', false⟩ (.returns (some (.ok response)))

theorem holderStep_of_step (hholds : call.holds = true)
    (h : step fuel service () s call = some (s', progress)) :
    HolderStep s.executor call s' progress := by
  cases call with
  | start request => cases hholds
  | acquire request => cases hholds
  | resolve request =>
    dsimp only [step, locked] at h
    split at h
    · cases h
      exact .fails (by rintro response ⟨⟩) ⟨id, .refl _⟩
    · rename_i prevStateRoot hroot
      cases h
      exact .goesOn rfl rfl rfl
        (fun _ => (ExecutorServiceImpl.resolvePrevStateRoot_ok hroot).2) (.inr ⟨id, .refl _⟩)
  | execute request prevStateRoot =>
    dsimp only [step, locked] at h
    split at h
    · cases h
      exact .goesOn rfl rfl rfl id (.inr ⟨id, .refl _⟩)
    · cases h
      exact .fails (by rintro response ⟨⟩) ⟨id, .refl _⟩
    · cases h
      exact .fails (by rintro response ⟨⟩) ⟨id, .refl _⟩
    · cases h
  | persist request prevStateRoot result changes =>
    dsimp only [step, locked] at h
    split at h
    · rename_i updatedStateRoot executor' hpersist
      obtain ⟨pendingChanges, storage, rfl, -⟩ := ExecutorServiceImpl.persist_done hpersist
      cases h
      exact .goesOn rfl rfl rfl id (.inl trivial)
    · rename_i status executor' hpersist
      obtain ⟨pendingChanges, storage, rfl, hpending⟩ := ExecutorServiceImpl.persist_done hpersist
      cases h
      exact .fails (by rintro response ⟨⟩) ⟨id, rfl, rfl, hpending ⟨status, rfl⟩, rfl⟩
    · cases h
      exact .fails (by rintro response ⟨⟩) ⟨id, .refl _⟩
    · cases h
  | finalizePool request result updatedStateRoot =>
    cases h
    exact .goesOn rfl rfl rfl id (.inl trivial)
  | storeHeight request updatedStateRoot =>
    cases h
    exact .goesOn rfl rfl rfl id (.inl trivial)
  | storeRoot request updatedStateRoot =>
    cases h
    exact .succeeds rfl id

/-! ### What a run keeps -/

/-- The lock is free and every request that got it has left it, or one request has it. -/
inductive LockState (log : Log ι crypto) (c : Config ι (ExecShared crypto) ExecCall) : Prop
  | free (none : c.NoneInside holds) (unlocked : c.shared.locked = false)
      (order : acquisitions log = (turns log).map Turn.holder)
  | held {t : ι} {call : ExecCall} (only : c.OnlyInside holds t call)
      (locked : c.shared.locked = true)
      (order : acquisitions log = (turns log).map Turn.holder ++ [(t, call.request)])
      (checked : Checked c.shared.executor call)

structure Linear (root : Bytes) (log : Log ι crypto)
    (c : Config ι (ExecShared crypto) ExecCall) : Prop where
  lock : LockState log c
  inside : ∀ taken ∈ log, ∀ response, taken.progress = .returns (some (.ok response)) →
    taken.call.holds = true
  chain : ChainsFrom root (successes log)
  last : c.shared.executor.lastStateRoot.bytes = lastRoot root (successes log)

section

variable {root : Bytes} {log : Log ι crypto} {c : Config ι (ExecShared crypto) ExecCall}
  {taken : Taken ι (ExecShared crypto) ExecCall ExecAnswer}

theorem turns_append : turns (log ++ [taken]) = turns log ++ (turn taken).toList := by
  rw [turns, List.filterMap_append]
  cases hturn : turn taken <;> simp [turns, hturn]

theorem acquisitions_append :
    acquisitions (log ++ [taken]) = acquisitions log ++ (acquires taken).toList := by
  rw [acquisitions, List.filterMap_append]
  cases hacquires : acquires taken <;> simp [acquisitions, hacquires]

theorem successes_append :
    successes (log ++ [taken]) = successes log ++ ((turn taken).bind Turn.success).toList := by
  rw [successes, turns_append, List.filterMap_append]
  cases hturn : turn taken with
  | none => rfl
  | some turn => cases hsuccess : turn.success <;> simp [successes, hsuccess]

variable {t : ι}

theorem turn_next {call' : ExecCall} : turn ⟨t, call, s, s', .next call'⟩ = none := by
  cases hholds : call.holds <;> simp [turn, hholds]

theorem turn_of_not_holds (h : call.holds = false) : turn ⟨t, call, s, s', progress⟩ = none := by
  simp [turn, h]

theorem turn_returns {answer : ExecAnswer} (h : call.holds = true) :
    turn ⟨t, call, s, s', .returns answer⟩ = some ⟨t, call.request, answer⟩ := by
  simp [turn, h]

theorem acquires_of_holds (h : call.holds = true) : acquires ⟨t, call, s, s', progress⟩ = none := by
  cases call with
  | acquire request => cases h
  | _ => rfl

theorem success_of_failed {request : ExecuteTxsRequest} {answer : ExecAnswer}
    (h : ∀ response, answer ≠ some (.ok response)) : Turn.success ⟨t, request, answer⟩ = none := by
  rcases answer with _ | _ | response
  · rfl
  · rfl
  · exact (h response rfl).elim

theorem inside_append (h : ∀ taken ∈ log, ∀ response,
      taken.progress = .returns (some (.ok response)) → taken.call.holds = true)
    {t : Taken ι (ExecShared crypto) ExecCall ExecAnswer}
    (ht : ∀ response, t.progress = .returns (some (.ok response)) → t.call.holds = true) :
    ∀ taken ∈ log ++ [t], ∀ response,
      taken.progress = .returns (some (.ok response)) → taken.call.holds = true := by
  intro taken htaken
  rcases List.mem_append.mp htaken with hlog | hlast
  · exact h taken hlog
  · obtain rfl := List.mem_singleton.mp hlast
    exact ht

variable [DecidableEq ι]

theorem Linear.issue (h : Linear root log c) (idle : c.threads t = none) (starts : Starts call) :
    Linear root log (c.put t (some call) c.shared) := by
  have hnew : ∀ d ∈ some call, d.holds = false := by
    rintro d ⟨⟩
    cases call with
    | start request => rfl
    | _ => exact starts.elim
  refine ⟨?_, h.inside, h.chain, h.last⟩
  cases h.lock with
  | free none unlocked order => exact .free (none.put t hnew _) unlocked order
  | held only locked order checked =>
    refine .held (only.put_other (fun d hd => ?_) hnew _) locked order checked
    rw [idle] at hd
    cases hd

/-- A step outside the lock. -/
theorem Linear.outside (h : Linear root log c) (active : c.threads t = some call)
    (hcall : call.holds = false) (hnext : ∀ d ∈ progress.rest, d.holds = false)
    (hfailed : ∀ response, progress ≠ .returns (some (.ok response)))
    (hacquires : acquires ⟨t, call, c.shared, c.shared, progress⟩ = none) :
    Linear root (log ++ [⟨t, call, c.shared, c.shared, progress⟩])
      (c.put t progress.rest c.shared) := by
  have hturn : turn ⟨t, call, c.shared, c.shared, progress⟩ = none := turn_of_not_holds hcall
  refine ⟨?_, inside_append h.inside fun response hresponse => (hfailed response hresponse).elim,
    ?_, ?_⟩
  · cases h.lock with
    | free none unlocked order =>
      refine .free (none.put t hnext _) unlocked ?_
      simpa [turns_append, acquisitions_append, hturn, hacquires] using order
    | held only locked order checked =>
      refine .held (only.put_other (fun d hd => ?_) hnext _) locked ?_ checked
      · cases active.symm.trans hd
        exact hcall
      · simpa [turns_append, acquisitions_append, hturn, hacquires] using order
  · simpa [successes_append, hturn] using h.chain
  · simpa [successes_append, hturn] using h.last

/-- A request gets the lock. -/
theorem Linear.acquire {request : ExecuteTxsRequest} (h : Linear root log c)
    (hunlocked : c.shared.locked = false) :
    Linear root
      (log ++ [⟨t, .acquire request, c.shared, ⟨c.shared.executor, true⟩,
        .next (.resolve request)⟩])
      (c.put t (some (.resolve request)) ⟨c.shared.executor, true⟩) := by
  refine ⟨?_, inside_append h.inside (by rintro response ⟨⟩), ?_, ?_⟩
  · cases h.lock with
    | free none unlocked order =>
      refine .held (none.enter t rfl _) rfl ?_ trivial
      rw [acquisitions_append, turns_append, order, turn_next]
      simp [acquires, ExecCall.request]
    | held only locked order checked => cases hunlocked.symm.trans locked
  · simpa [successes_append, turn_next] using h.chain
  · simpa [successes_append, turn_next] using h.last

/-- A step of the request that holds the lock. -/
theorem Linear.advance (h : Linear root log c) (active : c.threads t = some call)
    (hholds : call.holds = true) (hstep : HolderStep c.shared.executor call shared progress) :
    Linear root (log ++ [⟨t, call, c.shared, shared, progress⟩])
      (c.put t progress.rest shared) := by
  have hacquires : acquires ⟨t, call, c.shared, shared, progress⟩ = none := acquires_of_holds hholds
  cases h.lock with
  | free none unlocked order => cases (none t call active).symm.trans hholds
  | held only locked order checked =>
    obtain ⟨rfl, rfl⟩ := only.unique active hholds
    have hinside := fun progress' => inside_append h.inside
      (t := ⟨t, call, c.shared, shared, progress'⟩) fun _ _ => hholds
    cases hstep with
    | goesOn holds request sameRoot keeps records =>
      refine ⟨.held (only.advance holds _) rfl ?_ (keeps checked), hinside _, ?_, ?_⟩
      · simpa [acquisitions_append, turns_append, turn_next, hacquires, request] using order
      · simpa [successes_append, turn_next] using h.chain
      · simpa [successes_append, turn_next, sameRoot] using h.last
    | fails failed records =>
      refine ⟨.free (only.leave _) rfl ?_, hinside _, ?_, ?_⟩
      · simpa [acquisitions_append, turns_append, turn_returns hholds, hacquires, Turn.holder]
          using order
      · simpa [successes_append, turn_returns hholds, success_of_failed failed] using h.chain
      · simpa [successes_append, turn_returns hholds, success_of_failed failed, records.2.2.1]
          using h.last
    | succeeds newRoot checks =>
      have hsuccesses : ∀ {s'} {response}, successes (log ++ [(⟨t, call, c.shared, s',
          .returns (some (.ok response))⟩ : Taken ι (ExecShared crypto) ExecCall ExecAnswer)]) =
            successes log ++ [(call.request, response)] := by
        intro s' response
        rw [successes_append, turn_returns hholds]
        rfl
      refine ⟨.free (only.leave _) rfl ?_, hinside _, ?_, ?_⟩
      · simpa [acquisitions_append, turns_append, turn_returns hholds, hacquires, Turn.holder]
          using order
      · rw [hsuccesses]
        refine chainsFrom_append h.chain fun hprovided => ?_
        rw [← h.last]
        exact checks checked hprovided
      · rw [hsuccesses, lastRoot_append]
        exact newRoot

theorem Linear.step (h : Linear root log c) (active : c.threads t = some call)
    (steps : ExecCall.step fuel service () c.shared call = some (shared, progress)) :
    Linear root (log ++ [⟨t, call, c.shared, shared, progress⟩])
      (c.put t progress.rest shared) := by
  cases hholds : call.holds with
  | true => exact h.advance active hholds (holderStep_of_step hholds steps)
  | false =>
    cases outsideStep_of_step hholds steps with
    | refused => exact h.outside active rfl (by rintro d ⟨⟩) (by rintro response ⟨⟩) rfl
    | waits => exact h.outside active rfl (by rintro d ⟨⟩; rfl) (by rintro response ⟨⟩) rfl
    | enters unlocked => exact h.acquire unlocked

/-! ### Requests that fail -/

def Records (taken : Taken ι (ExecShared crypto) ExecCall ExecAnswer) : Prop :=
  ¬ SameRecords taken.before.executor taken.after.executor

/-- A request is persisted when it records something, and stays so until it succeeds. -/
theorem step_persisted (h : ExecCall.step fuel service () s call = some (s', progress))
    (hcall : Persisted call ∨ ¬ SameRecords s.executor s'.executor) :
    progress.Is Persisted fun answer => ∃ response, answer = some (.ok response) := by
  have hnot : ¬ (¬ Persisted call ∧ SameRecords s.executor s'.executor) := by
    rintro ⟨hearly, hsame⟩
    exact hcall.elim hearly fun hchanges => hchanges hsame
  cases hholds : call.holds with
  | true =>
    cases holderStep_of_step hholds h with
    | goesOn holds request root checked records => exact records.resolve_right hnot
    | fails failed records => exact (hnot records).elim
    | succeeds root checked => exact ⟨_, rfl⟩
  | false =>
    cases outsideStep_of_step hholds h with
    | refused => exact (hnot ⟨id, .refl _⟩).elim
    | waits => exact (hnot ⟨id, .refl _⟩).elim
    | enters unlocked => exact (hnot ⟨id, .refl _⟩).elim

/-- However `execute_txs` requests are interleaved: they leave the lock in the order in which they
got it, those that succeed form a chain of state roots in this order, and a request that fails
changes nothing that it could have recorded. -/
theorem executeTxs_linearized {c c' : Config ι (ExecShared crypto) ExecCall} {log : Log ι crypto}
    (h : Runs (ExecCall.step fuel service) Starts (fun _ _ _ => True) c log c')
    (hidle : c.Quiescent) (hunlocked : c.shared.locked = false) :
    Linearized c.shared.executor.lastStateRoot.bytes log := by
  have hlinear : Linear c.shared.executor.lastStateRoot.bytes log c' := by
    refine h.invariant (Linear c.shared.executor.lastStateRoot.bytes) ?_ ?_ ?_
    · intro log c t call hlinear idle starts
      exact hlinear.issue idle starts
    · intro log c t call choice shared progress hlinear active _ steps
      exact hlinear.step active steps
    · exact ⟨.free hidle.noneInside hunlocked rfl, by rintro taken ⟨⟩, trivial, rfl⟩
  refine ⟨?_, hlinear.inside, hlinear.chain, ?_⟩
  · cases hlinear.lock with
    | free none unlocked order => exact order ▸ List.prefix_rfl
    | held only locked order checked => exact order ▸ List.prefix_append _ _
  · intro done taken later answer hsplit hanswer hfailed
    by_contra hchanges
    have hrecords : Records taken := hchanges
    obtain ⟨response, rfl⟩ := h.outcome_of_committed
      (fun _ _ _ _ _ _ hstep hmark => step_persisted hstep (.inr hmark))
      (fun _ _ _ _ _ hstep hcall => step_persisted hstep (.inl hcall))
      hsplit hrecords hanswer
    exact hfailed response rfl

end

end

/-! ### Three requests -/

/-- The callback names the root after the height, and fails at height 9. -/
def rootByHeight : ExecutorServiceImpl sampleCrypto :=
  { ExecutorServiceImpl.sampleService with
    onBlockExecuted := some fun info =>
      if info.height = 9 then Exec.throw (.storage "full")
      else pure (.repeatByte 32 info.height.toUInt8) }

def servingChain : Config (Fin 3) (ExecShared sampleCrypto) ExecCall where
  shared := ⟨ExecutorServiceImpl.sampleState [], false⟩
  threads := fun _ => none

def emptyBlock (height : UInt64) (prevStateRoot : Bytes) : ExecCall :=
  .start ⟨[], height, none, prevStateRoot⟩

/-- The second and the third request give the root that the first will return.  The third gets the
lock before the second, and its callback fails. -/
def contending : List (Interleave.Event (Fin 3) ExecCall Unit) :=
  [.issue 0 (emptyBlock 1 []), .issue 1 (emptyBlock 2 (List.replicate 32 1)),
    .issue 2 (emptyBlock 9 (List.replicate 32 1)), .run 0 (), .run 1 (), .run 2 (), .run 0 (),
    .run 0 (), .run 0 (), .run 0 (), .run 0 (), .run 0 (), .run 0 (), .run 2 (), .run 2 (),
    .run 2 (), .run 2 (), .run 1 (), .run 1 (), .run 1 (), .run 1 (), .run 1 (), .run 1 (),
    .run 1 ()]

theorem contending_plays :
    (playLogged (ExecCall.step 3 rootByHeight) Starts (fun _ _ _ => True) contending []
      servingChain).map (fun p => ((turns p.1).map Turn.thread,
        (successes p.1).map (fun q => q.2.updatedStateRoot), p.2.shared.executor.currentHeight)) =
      some ([0, 2, 1], [List.replicate 32 1, List.replicate 32 2], 2) := by
  decide +kernel

theorem executeTxs_linearized_contending :
    ∃ log c', Runs (ExecCall.step 3 rootByHeight) Starts (fun _ _ _ => True) servingChain log c' ∧
      (turns log).map Turn.thread = [0, 2, 1] ∧ (successes log).length = 2 ∧
      c'.shared.executor.currentHeight = 2 ∧ Linearized (List.replicate 32 0) log := by
  obtain ⟨⟨log, c'⟩, hplays, hresult⟩ := Option.map_eq_some_iff.mp contending_plays
  obtain ⟨hturns, hrest⟩ := Prod.mk.inj hresult
  obtain ⟨hroots, hheight⟩ := Prod.mk.inj hrest
  have hrun := runs_of_playLogged .refl hplays
  refine ⟨log, c', hrun, hturns, ?_, hheight, executeTxs_linearized hrun (fun _ => rfl) rfl⟩
  simpa using congrArg List.length hroots

end ExecCall

end Evolve.Evnode
