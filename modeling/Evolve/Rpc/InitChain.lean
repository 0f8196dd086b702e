import Mathlib
import Evolve.Lib.Interleave
import Evolve.Rpc.Service

/-! `init_chain` of the executor service, with concurrent requests.  A request checks at its start
that the chain is not initialized and marks it as initialized at its end; in between it waits for
locks, and other requests can pass the check. -/

namespace Evolve.Evnode

open Machine Borsh Effects Eth Interleave

structure InitChainRequest where
  genesisTime : Option Int64
  initialHeight : UInt64
  chainId : String

structure InitChainResponse where
  stateRoot : Bytes

def chainAlreadyInitialized : Status := ⟨.failedPrecondition, "chain already initialized"⟩

/-- What `init_chain` changes, together with what the other requests change. -/
structure ChainState (crypto : Crypto) where
  executor : ExecutorState crypto
  chainId : String
  initialHeight : UInt64
  genesisTime : UInt64

/-- How genesis is run: on a storage, for an initial height and a genesis time.  An error is given
by its text. -/
abbrev RunGenesis := ReadonlyKV → UInt64 → UInt64 → Except String (List CoreStateChange)

/-- Where a request waits: before it starts, for the lock of the pending changes, for that of the
chain id, and for that of the state root. -/
inductive InitCall where
  | start (request : InitChainRequest)
  | recordChanges (request : InitChainRequest) (genesisTime : UInt64)
      (changes : List CoreStateChange) (stateRoot : B256)
  | recordChain (request : InitChainRequest) (genesisTime : UInt64) (stateRoot : B256)
  | recordRoot (request : InitChainRequest) (genesisTime : UInt64) (stateRoot : B256)

abbrev InitAnswer := Except Status InitChainResponse

namespace InitCall

variable {crypto : Crypto} (runGenesis : RunGenesis)

def Starts : InitCall → Prop
  | .start _ => True
  | _ => False

variable (s : ChainState crypto)

def check (request : InitChainRequest) : Progress InitCall InitAnswer :=
  if s.executor.initialized then .returns (.error chainAlreadyInitialized)
  else if request.initialHeight = 0 then
    .returns (.error (EvnodeError.invalidArgument "initial_height must be > 0").toStatus)
  else
    let genesisTime := ExecutorServiceImpl.timestampToUnix request.genesisTime
    match runGenesis s.executor.storage request.initialHeight genesisTime with
    | .error e => .returns (.error ⟨.internal, "genesis failed: " ++ e⟩)
    | .ok changes =>
      .next (.recordChanges request genesisTime changes
        (computeStateRoot crypto (.repeatByte 32 0) changes))

def step (_ : Unit) (s : ChainState crypto) :
    InitCall → Option (ChainState crypto × Progress InitCall InitAnswer)
  | .start request => some (s, check runGenesis s request)
  | .recordChanges request genesisTime changes stateRoot =>
    let executor := { s.executor with pendingChanges := s.executor.pendingChanges ++ changes }
    some ({ s with executor }, .next (.recordChain request genesisTime stateRoot))
  | .recordChain request genesisTime stateRoot =>
    let executor := { s.executor with currentHeight := request.initialHeight }
    some (⟨executor, request.chainId, request.initialHeight, genesisTime⟩,
      .next (.recordRoot request genesisTime stateRoot))
  | .recordRoot _ _ stateRoot =>
    let executor := { s.executor with lastStateRoot := stateRoot, initialized := true }
    some ({ s with executor }, .returns (.ok ⟨stateRoot.bytes⟩))

/-! ### Once -/

variable {ι : Type}

abbrev Log (ι : Type) (crypto : Crypto) := List (Taken ι (ChainState crypto) InitCall InitAnswer)

def succeeds (taken : Taken ι (ChainState crypto) InitCall InitAnswer) : Bool :=
  match taken.progress with
  | .returns (.ok _) => true
  | _ => false

def recordsChanges (taken : Taken ι (ChainState crypto) InitCall InitAnswer) : Bool :=
  match taken.call with
  | .recordChanges .. => true
  | _ => false

/-- The root that the genesis of a request leads to. -/
def GenesisRoot (request : InitChainRequest) (genesisTime : UInt64) (stateRoot : B256) : Prop :=
  genesisTime = ExecutorServiceImpl.timestampToUnix request.genesisTime ∧
    ∃ changes, runGenesis s.executor.storage request.initialHeight genesisTime = .ok changes ∧
      stateRoot = computeStateRoot crypto (.repeatByte 32 0) changes

def RecordsChain (request : InitChainRequest) (genesisTime : UInt64) : Prop :=
  s.chainId = request.chainId ∧ s.initialHeight = request.initialHeight ∧
    s.genesisTime = genesisTime

/-- The chain id, the initial height, the genesis time and the state root are those of one
request. -/
def RecordsOne : Prop :=
  ∃ request genesisTime, RecordsChain s request genesisTime ∧
    GenesisRoot runGenesis s request genesisTime s.executor.lastStateRoot

/-- At most one request has succeeded, genesis changes were recorded at most once, and what an
initialized chain has recorded comes from one request. -/
structure InitializesOnce (log : Log ι crypto) (s : ChainState crypto) : Prop where
  once : (log.countP succeeds) ≤ 1
  changes : (log.countP recordsChanges) ≤ 1
  recorded : s.executor.initialized = true → RecordsOne runGenesis s

/-- A request is past its check and has not returned. -/
def pastCheck : InitCall → Bool
  | .start _ => false
  | _ => true

/-- A request starts only while no other one is past its check. -/
def StartsAlone (c : Config ι (ChainState crypto) InitCall) (_ : ι) (call : InitCall) : Prop :=
  call.pastCheck = false → ∀ u d, c.threads u = some d → d.pastCheck = false

instance : DecidablePred Starts
  | .start _ => isTrue trivial
  | .recordChanges .. => isFalse id
  | .recordChain .. => isFalse id
  | .recordRoot .. => isFalse id

instance [Fintype ι] (c : Config ι (ChainState crypto) InitCall) (t : ι) (call : InitCall) :
    Decidable (StartsAlone c t call) :=
  decidable_of_iff
    (call.pastCheck = false → ∀ u, (c.threads u).all (fun d => d.pastCheck = false) = true)
    (by simp [StartsAlone, Option.all_eq_true])

/-! ### The stages of a chain -/

variable {runGenesis}

variable (runGenesis) in
/-- What is known while one request is past its check. -/
def Known (log : Log ι crypto) (s : ChainState crypto) : InitCall → Prop
  | .start _ => False
  | .recordChanges request genesisTime _ stateRoot =>
    log.countP recordsChanges = 0 ∧ GenesisRoot runGenesis s request genesisTime stateRoot
  | .recordChain request genesisTime stateRoot =>
    log.countP recordsChanges ≤ 1 ∧ GenesisRoot runGenesis s request genesisTime stateRoot
  | .recordRoot request genesisTime stateRoot =>
    log.countP recordsChanges ≤ 1 ∧ GenesisRoot runGenesis s request genesisTime stateRoot ∧
      RecordsChain s request genesisTime

variable (runGenesis) in
inductive Stage (log : Log ι crypto) (c : Config ι (ChainState crypto) InitCall) : Prop
  | before (none : c.NoneInside pastCheck) (initialized : c.shared.executor.initialized = false)
      (successes : log.countP succeeds = 0) (changes : log.countP recordsChanges = 0)
  | during {t : ι} {call : InitCall} (only : c.OnlyInside pastCheck t call)
      (initialized : c.shared.executor.initialized = false)
      (successes : log.countP succeeds = 0) (known : Known runGenesis log c.shared call)
  | after (none : c.NoneInside pastCheck) (initialized : c.shared.executor.initialized = true)
      (successes : log.countP succeeds ≤ 1) (changes : log.countP recordsChanges ≤ 1)
      (recorded : RecordsOne runGenesis c.shared)

variable {log : Log ι crypto} {c : Config ι (ChainState crypto) InitCall}

theorem Stage.initializesOnce (h : Stage runGenesis log c) :
    InitializesOnce runGenesis log c.shared := by
  cases h with
  | before none initialized successes changes =>
    refine ⟨by omega, by omega, fun hinit => ?_⟩
    rw [initialized] at hinit
    cases hinit
  | @during t call only initialized successes known =>
    refine ⟨by omega, ?_, fun hinit => ?_⟩
    · cases call with
      | start request => exact known.elim
      | recordChanges request genesisTime changes stateRoot => exact known.1.le.trans zero_le_one
      | recordChain request genesisTime stateRoot => exact known.1
      | recordRoot request genesisTime stateRoot => exact known.1
    · rw [initialized] at hinit
      cases hinit
  | after none initialized successes changes recorded =>
    exact ⟨successes, changes, fun _ => recorded⟩

variable [DecidableEq ι]

theorem Stage.issue {t : ι} {call : InitCall} (h : Stage runGenesis log c)
    (idle : c.threads t = none) (starts : Starts call) :
    Stage runGenesis log (c.put t (some call) c.shared) := by
  have hnew : ∀ d ∈ some call, d.pastCheck = false := by
    rintro d ⟨⟩
    cases call with
    | start request => rfl
    | _ => exact starts.elim
  cases h with
  | before none initialized successes changes =>
    exact .before (none.put t hnew _) initialized successes changes
  | during only initialized successes known =>
    refine .during (only.put_other (fun d hd => ?_) hnew _) initialized successes known
    rw [idle] at hd
    cases hd
  | after none initialized successes changes recorded =>
    exact .after (none.put t hnew _) initialized successes changes recorded

/-- A request that starts while nobody is past the check. -/
theorem Stage.start {t : ι} {request : InitChainRequest} (h : Stage runGenesis log c)
    (hnone : c.NoneInside pastCheck) :
    Stage runGenesis
      (log ++ [⟨t, .start request, c.shared, c.shared, check runGenesis c.shared request⟩])
      (c.put t (check runGenesis c.shared request).rest c.shared) := by
  have hidle : ∀ answer, (c.put t (Progress.returns answer : Progress InitCall InitAnswer).rest
      c.shared).NoneInside pastCheck :=
    fun answer => hnone.put t (by rintro d ⟨⟩) _
  cases h with
  | before _ initialized successes changes =>
    unfold check
    rw [initialized, if_neg Bool.false_ne_true]
    split
    · exact .before (hidle _) initialized (by simp [successes, succeeds])
        (by simp [changes, recordsChanges])
    · dsimp only
      split
      · exact .before (hidle _) initialized (by simp [successes, succeeds])
          (by simp [changes, recordsChanges])
      · rename_i genesisChanges hgenesis
        exact .during (hnone.enter t rfl _) initialized (by simp [successes, succeeds])
          ⟨by simp [changes, recordsChanges], rfl, _, hgenesis, rfl⟩
  | during only initialized successes known =>
    cases (hnone _ _ only.active).symm.trans only.isInside
  | after _ initialized successes changes recorded =>
    unfold check
    rw [if_pos initialized]
    refine .after (hidle _) initialized ?_ ?_ recorded
    · simpa [succeeds] using successes
    · simpa [recordsChanges] using changes

/-- A step of the request that is past its check. -/
theorem Stage.advance {t : ι} {call : InitCall} {shared : ChainState crypto}
    {progress : Progress InitCall InitAnswer} (h : Stage runGenesis log c)
    (active : c.threads t = some call) (past : call.pastCheck = true)
    (steps : step runGenesis () c.shared call = some (shared, progress)) :
    Stage runGenesis (log ++ [⟨t, call, c.shared, shared, progress⟩])
      (c.put t progress.rest shared) := by
  cases h with
  | before none => cases (none t call active).symm.trans past
  | after none => cases (none t call active).symm.trans past
  | during only initialized successes known =>
    obtain ⟨rfl, rfl⟩ := only.unique active past
    cases call with
    | start request => cases past
    | recordChanges request genesisTime changes stateRoot =>
      cases steps
      obtain ⟨hcount, hroot⟩ := known
      exact .during (only.advance rfl _) initialized (by simp [successes, succeeds])
        ⟨by simp [hcount, recordsChanges], hroot⟩
    | recordChain request genesisTime stateRoot =>
      cases steps
      obtain ⟨hcount, hroot⟩ := known
      exact .during (only.advance rfl _) initialized (by simp [successes, succeeds])
        ⟨by simpa [recordsChanges] using hcount, hroot, rfl, rfl, rfl⟩
    | recordRoot request genesisTime stateRoot =>
      cases steps
      obtain ⟨hcount, hroot, hchain⟩ := known
      exact .after (only.leave _) rfl (by simp [successes, succeeds])
        (by simpa [recordsChanges] using hcount) ⟨request, genesisTime, hchain, hroot⟩

/-- However requests are interleaved, as long as each starts only while no other one is past its
check, at most one succeeds, genesis changes are recorded at most once, and what is recorded comes
from one request. -/
theorem initializesOnce_of_startsAlone {c c' : Config ι (ChainState crypto) InitCall}
    {log : Log ι crypto} (h : Runs (step runGenesis) Starts StartsAlone c log c')
    (hidle : c.Quiescent) (hnew : c.shared.executor.initialized = false) :
    InitializesOnce runGenesis log c'.shared := by
  refine (h.invariant (Stage runGenesis) ?_ ?_ ?_).initializesOnce
  · intro log c t call hstage idle starts
    exact hstage.issue idle starts
  · intro log c t call choice shared progress hstage active alone steps
    cases hpast : call.pastCheck with
    | true => exact hstage.advance active hpast steps
    | false =>
      cases call with
      | start request =>
        cases steps
        exact hstage.start (alone hpast)
      | _ => cases hpast
  · exact .before hidle.noneInside hnew rfl rfl

/-! ### Two requests -/

/-- A genesis that records the initial height. -/
def sampleGenesis : RunGenesis := fun _ initialHeight _ =>
  .ok [.set [0] (leBytes 8 initialHeight.toNat)]

/-- A library whose hashes are the last of the hashed bytes. -/
def suffixCrypto : Crypto :=
  { sampleCrypto with
    keccak256 := fun bytes => ⟨(bytes.reverse ++ List.replicate 32 0).take 32, by simp⟩ }

def sampleRoot (initialHeight : Nat) : B256 :=
  computeStateRoot suffixCrypto (.repeatByte 32 0) [.set [0] (leBytes 8 initialHeight)]

def newChain : Config Bool (ChainState suffixCrypto) InitCall where
  shared := ⟨⟨false, 0, .repeatByte 32 0, [], sampleStore, none⟩, "", 0, 0⟩
  threads := fun _ => none

/-- One request after the other. -/
def sequentially : List (Interleave.Event Bool InitCall Unit) :=
  [.issue false (.start ⟨none, 1, "first"⟩), .run false (), .run false (), .run false (),
    .run false (), .issue true (.start ⟨none, 2, "second"⟩), .run true ()]

theorem sequentially_plays :
    (playLogged (step sampleGenesis) Starts StartsAlone sequentially [] newChain).map (fun p =>
      (p.1.countP succeeds, p.2.shared.chainId, p.2.shared.executor.lastStateRoot)) =
        some (1, "first", sampleRoot 1) := by
  decide +kernel

theorem initializesOnce_sequentially :
    ∃ log c', Runs (step sampleGenesis) Starts StartsAlone newChain log c' ∧
      log.countP succeeds = 1 ∧ c'.shared.chainId = "first" ∧
      InitializesOnce sampleGenesis log c'.shared := by
  obtain ⟨⟨log, c'⟩, hplays, hresult⟩ := Option.map_eq_some_iff.mp sequentially_plays
  obtain ⟨hsuccesses, hrecorded⟩ := Prod.mk.inj hresult
  obtain ⟨hchain, -⟩ := Prod.mk.inj hrecorded
  have hrun := runs_of_playLogged .refl hplays
  exact ⟨log, c', hrun, hsuccesses, hchain,
    initializesOnce_of_startsAlone hrun (fun _ => rfl) rfl⟩

/-- Both requests pass the check before either is done. -/
def interleaved : List (Interleave.Event Bool InitCall Unit) :=
  [.issue false (.start ⟨none, 1, "first"⟩), .issue true (.start ⟨none, 2, "second"⟩),
    .run false (), .run true (), .run false (), .run true (), .run false (), .run true (),
    .run true (), .run false ()]

theorem interleaved_plays :
    (playLogged (step sampleGenesis) Starts (fun _ _ _ => True) interleaved [] newChain).map
      (fun p => ((p.1.countP succeeds, p.1.countP recordsChanges),
        (p.2.shared.chainId, p.2.shared.initialHeight, p.2.shared.executor.lastStateRoot))) =
        some ((2, 2), ("second", 2, sampleRoot 1)) := by
  decide +kernel

/-- Both requests succeed, the genesis changes are recorded twice, and the chain has the id and the
initial height of one request with the state root of the other. -/
theorem interleaved_not_initializesOnce :
    ∃ log c', Runs (step sampleGenesis) Starts (fun _ _ _ => True) newChain log c' ∧
      log.countP succeeds = 2 ∧ log.countP recordsChanges = 2 ∧
      c'.shared.chainId = "second" ∧ c'.shared.executor.lastStateRoot = sampleRoot 1 ∧
      ¬ RecordsOne sampleGenesis c'.shared ∧ ¬ InitializesOnce sampleGenesis log c'.shared := by
  obtain ⟨⟨log, c'⟩, hplays, hresult⟩ := Option.map_eq_some_iff.mp interleaved_plays
  obtain ⟨hcounts, hrecorded⟩ := Prod.mk.inj hresult
  obtain ⟨hsuccesses, hchanges⟩ := Prod.mk.inj hcounts
  obtain ⟨hchain, hrecorded⟩ := Prod.mk.inj hrecorded
  obtain ⟨hheight, hroot⟩ := Prod.mk.inj hrecorded
  refine ⟨log, c', runs_of_playLogged .refl hplays, hsuccesses, hchanges, hchain, hroot, ?_, ?_⟩
  · rintro ⟨request, genesisTime, ⟨-, hrequest, -⟩, -, changes, hgenesis, hgenesisRoot⟩
    rw [← hrequest] at hgenesis
    cases hgenesis
    have hroots := hroot.symm.trans hgenesisRoot
    rw [show c'.shared.initialHeight = 2 from hheight] at hroots
    revert hroots
    decide +kernel
  · intro honce
    have hle := honce.once
    rw [show log.countP succeeds = 2 from hsuccesses] at hle
    omega

end InitCall

end Evolve.Evnode
