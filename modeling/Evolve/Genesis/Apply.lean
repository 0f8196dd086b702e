import Mathlib
import Evolve.Genesis.File
import Evolve.Stf.Atomicity
import Evolve.Stf.Nesting

/-! Genesis: the transactions of a genesis file are calls that the runtime account makes one after
the other before the first block.  Whoever a transaction is declared to be sent by, the code that
handles it sees the runtime account as the sender. -/

namespace Evolve

open Machine Borsh Effects

/-- The text of an error code where the texts of the errors are not compiled in. -/
def ErrorCode.debug (e : ErrorCode) : String :=
  "ErrorCode \x7b id: " ++ toString e.id.toNat ++ ", arg: " ++ toString e.arg.toNat ++ " \x7d"

/-- Runs an action of the runtime account on a fresh execution state, without metering. -/
def Stf.systemExec {α : Type} (host : Host) (fuel : Nat) (storage : ReadonlyKV)
    (block : BlockContext) (action : Env → Program α) :
    Outcome (SdkResult (α × ExecutionState)) :=
  match Stf.runIn host fuel (.newForBeginBlock block) action ⟨.new storage, .infinite, []⟩ with
  | .done (.ok a, w) => .done (.ok (a, w.storage.popEvents.2))
  | .done (.error e, _) => .done (.error e)
  | .outOfFuel => .outOfFuel
  | .panic => .panic

variable {txs : List GenesisTx}

namespace Genesis

structure ConsensusParams where
  blockGasLimit : UInt64
deriving DecidableEq

def ConsensusParams.default : ConsensusParams := ⟨30000000⟩

def consensusParamsKey : Bytes := Codec.utf8 "consensus_params"

structure GenesisResult where
  index : Nat
  id : Option String
  success : Bool
  error : Option String
deriving DecidableEq

def genesisResult (index : Nat) (tx : GenesisTx) (result : SdkResult InvokeResponse) :
    GenesisResult :=
  match result with
  | .ok _ => ⟨index, tx.id, true, none⟩
  | .error e => ⟨index, tx.id, false, some e.debug⟩

/-- Makes the calls of the transactions up to the first that fails. -/
def execAll : List GenesisTx → Program (List (SdkResult InvokeResponse))
  | [] => pure []
  | tx :: txs => do
    match ← Prog.attempt (Prog.request (EnvOp.doExec tx.recipient tx.request [])) with
    | .error e => pure [.error e]
    | .ok response => do
      let rest ← execAll txs
      pure (.ok response :: rest)

def genesisResults (txs : List GenesisTx) (results : List (SdkResult InvokeResponse)) :
    List GenesisResult :=
  (txs.zip results).zipIdx.map fun p => genesisResult p.2 p.1.1 p.1.2

def genesisBlock : BlockContext := ⟨0, 0⟩

def applyGenesis (host : Host) (fuel : Nat) (storage : ReadonlyKV)
    (consensusParams : ConsensusParams) (txs : List GenesisTx) :
    Outcome (Except GenesisError (ExecutionState × List GenesisResult)) :=
  match Stf.systemExec host fuel storage genesisBlock fun _ => execAll txs with
  | .done (.error e) => .done (.error (.failed e.debug))
  | .done (.ok (responses, state)) =>
    let results := genesisResults txs responses
    match results.find? (!·.success) with
    | some failed =>
      .done (.error (.transactionFailed failed.index failed.id (failed.error.getD "")))
    | none =>
      match state.set consensusParamsKey (leBytes 8 consensusParams.blockGasLimit.toNat) with
      | .ok state => .done (.ok (state, results))
      | .error e =>
        .done (.error (.failed ("failed to store consensus params: " ++ e.debug)))
  | .outOfFuel => .outOfFuel
  | .panic => .panic

/-! ### The calls of the transactions -/

def genesisFrame : Invoker := .newForBeginBlock genesisBlock

def genesisStart (storage : ReadonlyKV) : World := ⟨.new storage, .infinite, []⟩

section

variable (host : Host) (fuel : Nat)

/-- The run of genesis, with the answers to its calls and the world that it ends in. -/
def genesisRun (storage : ReadonlyKV) (txs : List GenesisTx) :
    Outcome (SdkResult (List (SdkResult InvokeResponse)) × World) :=
  Stf.runIn host fuel genesisFrame (fun _ => execAll txs) (genesisStart storage)

/-- The calls of the transactions succeed one after the other, with the given responses. -/
inductive Delivered : List GenesisTx → World → List InvokeResponse → World → Prop
  | nil (w : World) : Delivered [] w [] w
  | cons {tx : GenesisTx} {txs : List GenesisTx} {response : InvokeResponse}
      {responses : List InvokeResponse} {w w₁ w' : World}
      (call : environment host fuel genesisFrame (.doExec tx.recipient tx.request []) w =
        .done (.ok response, w₁))
      (rest : Delivered txs w₁ responses w') :
      Delivered (tx :: txs) w (response :: responses) w'

end

section

variable {host : Host} {fuel : Nat}

theorem delivered_of_execAll {w w' : World} {results : List (SdkResult InvokeResponse)}
    (h : (execAll txs).run (environment host fuel genesisFrame) w = .done (.ok results, w'))
    (hok : ∀ p ∈ txs.zip results, ∃ response, p.2 = .ok response) :
    ∃ responses, results = responses.map .ok ∧ Delivered host fuel txs w responses w' := by
  induction txs generalizing w results with
  | nil =>
    cases h
    exact ⟨[], rfl, .nil _⟩
  | cons tx txs ih =>
    rcases Exec.bind_done.mp h with ⟨answer, w₁, hcall, hrest⟩ | ⟨_, _, ⟨⟩⟩
    obtain ⟨_, hcall, ⟨⟩⟩ := Exec.attempt_done.mp hcall
    cases answer with
    | error e =>
      cases hrest
      obtain ⟨_, ⟨⟩⟩ := hok (tx, .error e) (List.mem_cons_self ..)
    | ok response =>
      have hrest : (execAll txs >>= fun rest => pure (.ok response :: rest)).run
          (environment host fuel genesisFrame) w₁ = .done (.ok results, w') := hrest
      rw [Prog.run_bind] at hrest
      rcases Exec.bind_done.mp hrest with ⟨rest, w₂, hrest, ⟨⟩⟩ | ⟨_, _, ⟨⟩⟩
      obtain ⟨responses, rfl, hdelivered⟩ :=
        ih hrest fun p hp => hok p (List.mem_cons_of_mem _ hp)
      exact ⟨response :: responses, rfl, .cons hcall hdelivered⟩

theorem ok_of_success {index : Nat} {tx : GenesisTx} {result : SdkResult InvokeResponse}
    (h : (genesisResult index tx result).success = true) : ∃ response, result = .ok response := by
  cases result with
  | ok response => exact ⟨response, rfl⟩
  | error e => cases h

theorem ok_of_genesisResults {results : List (SdkResult InvokeResponse)}
    (h : (genesisResults txs results).find? (!·.success) = none) :
    ∀ p ∈ txs.zip results, ∃ response, p.2 = .ok response := by
  intro p hp
  obtain ⟨index, hindex⟩ := List.mem_iff_getElem?.mp hp
  have hmem : genesisResult index p.1 p.2 ∈ genesisResults txs results :=
    List.mem_map.mpr ⟨(p, index), List.mk_mem_zipIdx_iff_getElem?.mpr hindex, rfl⟩
  have hsuccess := List.find?_eq_none.mp h _ hmem
  exact ok_of_success (by simpa using hsuccess)

theorem delivered_of_applyGenesis {storage : ReadonlyKV} {params : ConsensusParams}
    {state : ExecutionState} {results : List GenesisResult}
    (h : applyGenesis host fuel storage params txs = .done (.ok (state, results))) :
    ∃ responses w', genesisRun host fuel storage txs = .done (.ok (responses.map .ok), w') ∧
      Delivered host fuel txs (genesisStart storage) responses w' := by
  unfold applyGenesis Stf.systemExec at h
  have hstart : Stf.runIn host fuel (.newForBeginBlock genesisBlock) (fun _ => execAll txs)
      ⟨.new storage, .infinite, []⟩ = genesisRun host fuel storage txs := rfl
  rw [hstart] at h
  rcases hrun : genesisRun host fuel storage txs with ⟨⟨(e | answers), w'⟩⟩ | _ | _ <;>
    rw [hrun] at h
  · cases h
  · dsimp only at h
    split at h
    · cases h
    · rename_i hnone
      obtain ⟨responses, rfl, hdelivered⟩ :=
        delivered_of_execAll hrun (ok_of_genesisResults hnone)
      exact ⟨responses, w', rfl, hdelivered⟩
  · cases h
  · cases h

end

end Genesis

/-! ### Who sends the transactions -/

def Activity.runsCode : Activity → Bool
  | .code _ _ _ _ => true
  | _ => false

/-- The sender that account code sees, if it is not called by other account code. -/
def Action.handlerSender : Action → Option AccountId
  | .begins (.code _ frame _ _ :: stack) _ =>
    if stack.any Activity.runsCode then none else some frame.env.sender
  | _ => none

/-- As long as no account code runs, the frame is one of the account that made the call. -/
theorem Live.whoami_eq {root : Invoker} {op : EnvOp} (hroot : root.whoami = runtimeAccountId)
    {stack : Stack} (h : Live (· = [.call root op]) stack)
    (hcode : stack.any Activity.runsCode = false) :
    ∀ a ∈ stack.head?, a.frame.whoami = runtimeAccountId := by
  induction h with
  | root hr =>
    subst hr
    rintro _ ⟨⟩
    exact hroot
  | @begets a b stack live hbegets ih =>
    rintro _ ⟨⟩
    rw [List.any_cons, Bool.or_eq_false_iff] at hcode
    have hframe := ih hcode.2 a rfl
    cases hbegets <;> first | exact hframe | rfl | cases hcode.1
  | issue live _ _ => simp [Activity.runsCode] at hcode
  | migrated live ih =>
    rintro _ ⟨⟩
    rfl
  | @hook phase frame _ stack live ih =>
    rintro _ ⟨⟩
    rw [List.any_cons, Bool.or_eq_false_iff] at hcode
    exact ih hcode.2 (.phase phase frame) rfl

theorem Live.handlerSender_eq {root : Invoker} {op : EnvOp} (hroot : root.whoami = runtimeAccountId)
    {entry : Entry} {frame : Invoker} {code : AccountCode} {request : InvokeRequest} {stack : Stack}
    (h : Live (· = [.call root op]) (.code entry frame code request :: stack))
    (hcode : stack.any Activity.runsCode = false) : frame.env.sender = runtimeAccountId := by
  cases h with
  | root hr => cases hr
  | @begets a _ _ live hbegets =>
    have hframe := live.whoami_eq hroot hcode a rfl
    cases hbegets with
    | query => rfl
    | execute => exact hframe
    | createInit => exact hframe
    | registerInit => exact hframe

namespace Genesis

section

variable (host : Host) (fuel : Nat)

/-- The worlds in which the calls of the transactions are made. -/
def worldsBefore : List GenesisTx → World → List World
  | [], _ => []
  | tx :: txs, w => w ::
    match environment host fuel genesisFrame (.doExec tx.recipient tx.request []) w with
    | .done (.ok _, w') => worldsBefore txs w'
    | _ => []

/-- What happens in the call of a transaction. -/
def traceOf (tx : GenesisTx) (w : World) : List Action :=
  (tracedEnvironment host fuel [] genesisFrame (.doExec tx.recipient tx.request [])).log w

/-- The senders that the account code which handles a transaction of genesis sees. -/
def handlerSenders (storage : ReadonlyKV) (txs : List GenesisTx) (index : Nat) : List AccountId :=
  match txs[index]?, (worldsBefore host fuel txs (genesisStart storage))[index]? with
  | some tx, some w => (traceOf host fuel tx w).filterMap Action.handlerSender
  | _, _ => []

theorem handlerSenders_eq {storage : ReadonlyKV} {index : Nat} {sender : AccountId}
    (h : sender ∈ handlerSenders host fuel storage txs index) : sender = runtimeAccountId := by
  unfold handlerSenders at h
  split at h
  · obtain ⟨action, haction, hsender⟩ := List.mem_filterMap.mp h
    have hsound := sound_of_mem_call haction
    unfold Action.handlerSender at hsender
    split at hsender
    · split at hsender
      · cases hsender
      · rename_i hcode
        cases hsender
        exact Live.handlerSender_eq rfl hsound (Bool.not_eq_true _ ▸ hcode)
    · cases hsender
  · cases h

/-- The account code that handles a transaction of genesis sees the sender declared for it. -/
def SeesDeclaredSenders (storage : ReadonlyKV) (txs : List GenesisTx) : Prop :=
  ∀ index tx, txs[index]? = some tx →
    ∀ sender ∈ handlerSenders host fuel storage txs index, sender = tx.sender

/-- For all lists of genesis transactions and all account codes: the account code that handles a
transaction sees the declared sender if and only if every transaction that account code handles
declares the system account as its sender. -/
theorem seesDeclaredSenders_iff (storage : ReadonlyKV) (txs : List GenesisTx) :
    SeesDeclaredSenders host fuel storage txs ↔
      ∀ index tx, txs[index]? = some tx → handlerSenders host fuel storage txs index ≠ [] →
        tx.sender = systemAccountId := by
  constructor
  · intro h index tx htx hhandled
    obtain ⟨sender, hsender⟩ := List.exists_mem_of_ne_nil _ hhandled
    exact (h index tx htx sender hsender).symm.trans (handlerSenders_eq host fuel hsender)
  · intro h index tx htx sender hsender
    have hsystem := h index tx htx (List.ne_nil_of_mem hsender)
    exact (handlerSenders_eq host fuel hsender).trans hsystem.symm

end

/-- A transaction that creates an account with idle code. -/
def convertedTx (id : Option String) (sender : AccountId) : GenesisTx :=
  ⟨id, sender, runtimeAccountId,
    ⟨"create_account", 1, [4, 0, 0, 0, 105, 100, 108, 101, 0, 0, 0, 0]⟩⟩

/-- A transaction that is declared to be sent by account 7 is handled as one of account 0. -/
theorem declared_sender_not_seen :
    ¬ SeesDeclaredSenders sampleHost 3 (fun _ => .ok none) [convertedTx none (.fromU64 7)] := by
  intro h
  have hsees : AccountId.fromU64 0 ∈
      handlerSenders sampleHost 3 (fun _ => .ok none) [convertedTx none (.fromU64 7)] 0 := by
    decide +kernel
  exact absurd (h 0 _ rfl _ hsees) (by decide)

end Genesis

end Evolve
