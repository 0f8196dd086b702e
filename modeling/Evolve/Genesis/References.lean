import Mathlib
import Evolve.Genesis.Apply
import Evolve.Stf.Accounts

/-! References in genesis files.  A file predicts the accounts that its transactions create with a
counter of its own, while genesis takes their numbers from the runtime's counter: the two never
agree. -/

namespace Evolve.Genesis

open Machine Borsh Effects

/-! ### Accounts that genesis creates -/

/-- The transaction asks the runtime for a new account. -/
def GenesisTx.CreatesAccount (tx : GenesisTx) : Prop :=
  tx.recipient = runtimeAccountId ∧
    tx.request.function = InvokableMessage.functionIdentifier CreateAccountRequest

section

variable {host : Host} {fuel : Nat}

theorem createAccount_done {nested : Environment}
    (hnested : ∀ frame op, Exec.Keeps World.Advances (nested frame op)) {invoker : Invoker}
    {codeId : String} {message init : Message} {funds : List FungibleAsset} {number : AccountId}
    {w w' : World} (h : Invoker.createAccount host nested invoker codeId message funds w =
      .done (.ok (number, init), w')) :
    w.storage.nextNumber = .ok number ∧
      ∃ k, w'.storage.nextNumber = .ok (AccountId.increase^[k + 1] number) ∧
        w.history.length + (k + 1) ≤ w'.history.length := by
  have rule := advances_callRule host
  rcases Exec.bind_done.mp h with ⟨_, w₀, hvalid, h⟩ | ⟨_, _, ⟨⟩⟩
  obtain ⟨-, rfl⟩ := Prod.mk.inj (Outcome.done.inj hvalid)
  rcases Exec.bind_done.mp h with ⟨account, w₁, hallocate, h⟩ | ⟨_, _, ⟨⟩⟩
  rcases Exec.bind_done.mp h with ⟨code, w₂, hcode, h⟩ | ⟨_, _, ⟨⟩⟩
  rcases Exec.bind_done.mp h with ⟨response, w₃, hinit, ⟨⟩⟩ | ⟨_, _, ⟨⟩⟩
  obtain ⟨hnext, hmoved, hhistory⟩ := (Exec.wp_done wp_allocateAccount_advances hallocate).2 _ rfl
  have hcode := Exec.wp_done (rule.keeps_codeOf host number w₁) hcode
  have hinit := Exec.wp_done (rule.keeps_run hnested _ _ w₂) hinit
  obtain ⟨k, hk, hle⟩ := (hcode.trans hinit) _ hmoved
  refine ⟨hnext, k, ?_, by omega⟩
  rw [Function.iterate_succ_apply]
  exact hk

theorem creation_done {tx : GenesisTx} (htx : tx.CreatesAccount) {w w' : World}
    {response : InvokeResponse}
    (h : environment host fuel genesisFrame (.doExec tx.recipient tx.request []) w =
      .done (.ok response, w')) :
    ∃ number init, response.get = .ok (CreateAccountResponse.mk number init) ∧
      w.storage.nextNumber = .ok number ∧
        ∃ k, w'.storage.nextNumber = .ok (AccountId.increase^[k + 1] number) ∧
          w.history.length + (k + 1) ≤ w'.history.length := by
  obtain ⟨hrecipient, hfunction⟩ := htx
  cases fuel with
  | zero => cases h
  | succ fuel =>
    obtain ⟨w₁, htransfers, hexec⟩ := doExec_ok (show Invoker.doExec host (environment host fuel)
      genesisFrame tx.recipient tx.request [] w = .done (.ok response, w') from h)
    obtain ⟨-, rfl⟩ := Prod.mk.inj (Outcome.done.inj htransfers)
    unfold Invoker.execWithoutTransfers Invoker.handleSystemExec at hexec
    rw [if_pos hrecipient, if_pos hfunction] at hexec
    rcases Exec.bind_done.mp hexec with ⟨req, w₂, hreq, hexec⟩ | ⟨_, _, ⟨⟩⟩
    obtain ⟨-, rfl⟩ := Prod.mk.inj (Outcome.done.inj hreq)
    rcases Exec.bind_done.mp hexec with ⟨⟨number, init⟩, w₃, hcreated, hanswer⟩ | ⟨_, _, ⟨⟩⟩
    have hanswer : Exec.ofExcept (InvokeResponse.new (CreateAccountResponse.mk number init)) w₃ =
      .done (.ok response, w') := hanswer
    obtain ⟨hnew, rfl⟩ := Prod.mk.inj (Outcome.done.inj hanswer)
    have hnested := (advances_callRule host).keeps_call fuel
    obtain ⟨hnext, k, hk, hle⟩ := createAccount_done hnested hcreated
    exact ⟨number, init, InvokeResponse.get_new hnew, hnext, k, hk, hle⟩

end

/-- The account that a transaction with an identifier has created, from the answer to its call. -/
def allocation (tx : GenesisTx) (response : InvokeResponse) : Option (String × AccountId) :=
  match tx.id, (response.get : SdkResult CreateAccountResponse) with
  | some id, .ok created => some (id, created.newAccountId)
  | _, _ => none

def allocated (txs : List GenesisTx) (responses : List InvokeResponse) :
    List (String × AccountId) :=
  (txs.zip responses).filterMap fun p => allocation p.1 p.2

/-- The accounts that a run of genesis allocates for the identifiers. -/
def allocations (host : Host) (fuel : Nat) (storage : ReadonlyKV) (txs : List GenesisTx) :
    List (String × AccountId) :=
  match genesisRun host fuel storage txs with
  | .done (.ok results, _) => allocated txs (results.filterMap Except.toOption)
  | _ => []

/-- How many account operations a run of genesis makes, those that are rolled back included. -/
def accountOperations (host : Host) (fuel : Nat) (storage : ReadonlyKV) (txs : List GenesisTx) :
    Nat :=
  match genesisRun host fuel storage txs with
  | .done (_, w) => w.history.length
  | _ => 0

/-- Every reference resolves to the account that was allocated for the transaction that has the
identifier. -/
def GenesisFile.ResolvesTo (file : GenesisFile) (accounts : List (String × AccountId)) : Prop :=
  ∀ index tx, file.transactions[index]? = some tx → ∀ id ∈ tx.references,
    ∀ account, (id, account) ∈ accounts →
      (file.scopeAt index).idToAccount.lookup id = some account

/-! ### References never resolve to the accounts that are allocated -/

/-- Two counters: the one that the conversion of the file predicts accounts with, and the one that
the runtime takes their numbers from. -/
structure Counting (scope : Scope) (w : World) (predicted assigned : Nat) : Prop where
  scope : scope.nextAccountId = AccountId.increase^[predicted] (.fromU64 1)
  number : w.storage.nextNumber =
    .ok (AccountId.increase^[assigned] (.fromU64 initialAccountNumber))
  le : predicted ≤ assigned
  operations : assigned ≤ w.history.length

theorem counting_initial :
    Counting .initial (genesisStart fun _ => .ok none) 0 0 :=
  ⟨rfl, by decide, le_rfl, le_rfl⟩

/-- The predicted number is far below the assigned one as long as the counter does not wrap. -/
theorem predicted_ne_assigned {predicted assigned : Nat} (hle : predicted ≤ assigned)
    (hlt : assigned < 256 ^ 32 - 65535) :
    AccountId.increase^[assigned] (.fromU64 initialAccountNumber) ≠
      AccountId.increase^[predicted] (.fromU64 1) := by
  intro h
  have hnat := congrArg AccountId.toNat h
  have hone : (AccountId.fromU64 1).toNat = 1 := by decide
  have hfirst : (AccountId.fromU64 initialAccountNumber).toNat = 65535 := by decide
  rw [AccountId.toNat_iterate_increase, AccountId.toNat_iterate_increase, hone, hfirst,
    Nat.mod_eq_of_lt (by omega), Nat.mod_eq_of_lt (by omega)] at hnat
  omega

/-- The accounts that the scope predicts for its identifiers are not those that were allocated. -/
def Mismatched (scope : Scope) (accounts : List (String × AccountId)) : Prop :=
  ∀ id predicted, scope.idToAccount.lookup id = some predicted →
    ∃ account, (id, account) ∈ accounts ∧ account ≠ predicted

section

variable {host : Host} {fuel : Nat}

theorem step_mismatched {json : GenesisTxJson} {tx : GenesisTx} {scope : Scope} {w w' : World}
    {response : InvokeResponse} {predicted assigned : Nat} {before : List (String × AccountId)}
    (hid : tx.id = json.id) (hcreates : tx.id ≠ none → tx.CreatesAccount)
    (hcall : environment host fuel genesisFrame (.doExec tx.recipient tx.request []) w =
      .done (.ok response, w'))
    (hcounting : Counting scope w predicted assigned) (hmismatched : Mismatched scope before)
    (hfew : w.history.length < 256 ^ 32 - 65535) :
    (∃ predicted assigned, Counting (scope.afterTx json) w' predicted assigned) ∧
      Mismatched (scope.afterTx json) (before ++ (allocation tx response).toList) := by
  cases hjson : json.id with
  | none =>
    rw [Scope.afterTx, hjson]
    refine ⟨?_, fun id predicted hlookup => ?_⟩
    · have hadvances := Exec.wp_done ((advances_callRule host).keeps_call fuel _ _ w) hcall
      obtain ⟨k, hnumber, hle⟩ := hadvances _ hcounting.number
      rw [← Function.iterate_add_apply] at hnumber
      have hassigned := hcounting.operations
      have hpredicted := hcounting.le
      exact ⟨predicted, k + assigned, hcounting.scope, hnumber, by omega, by omega⟩
    · obtain ⟨account, hmem, hne⟩ := hmismatched id predicted hlookup
      exact ⟨account, List.mem_append_left _ hmem, hne⟩
  | some id =>
    have hsome : tx.id = some id := hid.trans hjson
    have htx : tx.CreatesAccount := hcreates (by rw [hsome]; exact Option.some_ne_none id)
    obtain ⟨number, init, hanswer, hnext, k, hnumber, hle⟩ := creation_done htx hcall
    have hallocation : allocation tx response = some (id, number) := by
      rw [allocation, hsome, hanswer]
    cases hcounting.number.symm.trans hnext
    rw [Scope.afterTx, hjson, hallocation]
    have hassigned := hcounting.operations
    have hpredicted := hcounting.le
    refine ⟨⟨predicted + 1, k + 1 + assigned, ?_, ?_, by omega, by omega⟩, ?_⟩
    · rw [Function.iterate_succ_apply', ← hcounting.scope]
    · rw [Function.iterate_add_apply]
      exact hnumber
    · intro other found hlookup
      rw [List.lookup_cons] at hlookup
      split at hlookup
      · rename_i hsame
        cases hlookup
        refine ⟨_, List.mem_append_right _ (List.mem_singleton.mpr ?_),
          hcounting.scope ▸ predicted_ne_assigned hpredicted (by omega)⟩
        rw [eq_of_beq hsame]
      · obtain ⟨account, hmem, hne⟩ := hmismatched other found hlookup
        exact ⟨account, List.mem_append_left _ hmem, hne⟩

theorem Delivered.advances {txs : List GenesisTx} {w w' : World} {responses : List InvokeResponse}
    (h : Delivered host fuel txs w responses w') : w.Advances w' := by
  induction h with
  | nil w => exact .refl w
  | cons call _ ih =>
    exact (Exec.wp_done ((advances_callRule host).keeps_call fuel _ _ _) call).trans ih

theorem Delivered.mismatched {registry : MessageRegistry} {jsons : List GenesisTxJson}
    {txs : List GenesisTx} {w w' : World} {responses : List InvokeResponse} {start : Nat}
    {scope : Scope} {predicted assigned : Nat} {before : List (String × AccountId)}
    (hdelivered : Delivered host fuel txs w responses w')
    (hconverted : toTransactionsFrom registry start scope jsons = .ok txs)
    (hcreates : ∀ tx ∈ txs, tx.id ≠ none → tx.CreatesAccount)
    (hcounting : Counting scope w predicted assigned) (hmismatched : Mismatched scope before)
    (hfew : w'.history.length < 256 ^ 32 - 65535) {index : Nat} {json : GenesisTxJson}
    (hjson : jsons[index]? = some json) {id : String} (hid : id ∈ json.references) :
    ∃ found account, ((jsons.take index).foldl Scope.afterTx scope).idToAccount.lookup id =
        some found ∧ (id, account) ∈ before ++ allocated txs responses ∧ account ≠ found := by
  induction jsons generalizing txs w responses start scope predicted assigned before index with
  | nil => cases hjson
  | cons first jsons ih =>
    obtain ⟨tx, htx, hconverted⟩ := bind_eq_ok hconverted
    obtain ⟨rest, hrest, ⟨⟩⟩ := bind_eq_ok hconverted
    obtain ⟨hsame, hhas⟩ := toTransaction_spec htx
    cases hdelivered with
    | cons call delivered =>
      rename_i response responses w₁
      cases index with
      | zero =>
        cases hjson
        obtain ⟨found, hfound⟩ := hhas id hid
        obtain ⟨account, hmem, hne⟩ := hmismatched id found hfound
        exact ⟨found, account, hfound, List.mem_append_left _ hmem, hne⟩
      | succ index =>
        obtain ⟨_, -, hle⟩ :=
          (Delivered.cons call delivered).advances _ hcounting.number
        obtain ⟨⟨_, _, hcounting⟩, hmismatched⟩ := step_mismatched hsame
          (hcreates tx (List.mem_cons_self ..)) call hcounting hmismatched (by omega)
        obtain ⟨found, account, hfound, hmem, hne⟩ := ih delivered hrest
          (fun tx h => hcreates tx (List.mem_cons_of_mem _ h)) hcounting hmismatched hjson
        refine ⟨found, account, hfound, ?_, hne⟩
        have hsplit : before ++ allocated (tx :: rest) (response :: responses) =
            before ++ (allocation tx response).toList ++ allocated rest responses := by
          rw [allocated, List.zip_cons_cons, List.filterMap_cons, List.append_assoc]
          cases allocation tx response <;> rfl
        rwa [hsplit]

end

/-- For every genesis file in which the transactions with an identifier create accounts through the
runtime, and every genesis that succeeds on an empty store: the references of the file resolve to
the accounts that are allocated if the file has no references, and only then unless genesis makes
so many account operations that the counter of account numbers can wrap. -/
theorem resolvesTo_allocations {registry : MessageRegistry} {host : Host} {fuel : Nat}
    {params : ConsensusParams} {file : GenesisFile} {txs : List GenesisTx} {state : ExecutionState}
    {results : List GenesisResult} (hfile : file.toTransactions registry = .ok txs)
    (hgenesis : applyGenesis host fuel (fun _ => .ok none) params txs =
      .done (.ok (state, results)))
    (hcreates : ∀ tx ∈ txs, tx.id ≠ none → tx.CreatesAccount) :
    (file.references = [] →
        file.ResolvesTo (allocations host fuel (fun _ => .ok none) txs)) ∧
      (accountOperations host fuel (fun _ => .ok none) txs < 256 ^ 32 - 65535 →
        file.ResolvesTo (allocations host fuel (fun _ => .ok none) txs) →
          file.references = []) := by
  obtain ⟨responses, w', hrun, hdelivered⟩ := delivered_of_applyGenesis hgenesis
  have hallocations : allocations host fuel (fun _ => .ok none) txs = allocated txs responses := by
    rw [allocations, hrun]
    show allocated txs ((responses.map Except.ok).filterMap Except.toOption) = _
    rw [List.filterMap_map]
    exact congrArg _ (List.filterMap_some ..)
  rw [accountOperations, hrun, hallocations]
  obtain ⟨_, -, hconverted⟩ := bind_eq_ok hfile
  constructor
  · intro hnone index json hindex id hid
    have hmem : id ∈ file.references :=
      List.mem_flatMap.mpr ⟨json, List.mem_of_getElem? hindex, hid⟩
    rw [hnone] at hmem
    cases hmem
  · intro hfew hresolves
    by_contra hne
    obtain ⟨id, hid⟩ := List.exists_mem_of_ne_nil _ hne
    obtain ⟨json, hjson, hid⟩ := List.mem_flatMap.mp hid
    obtain ⟨index, hindex⟩ := List.mem_iff_getElem?.mp hjson
    have hstart : Mismatched .initial [] := nofun
    obtain ⟨found, account, hfound, hmem, hneq⟩ := hdelivered.mismatched hconverted hcreates
      counting_initial hstart hfew hindex hid
    have hresolved := hresolves index json hindex id hid account hmem
    exact hneq (Option.some.inj (hresolved.symm.trans hfound))

/-! ### Files with and without references -/

/-- Encodes every message of type `create` as the creation of an account. -/
def creatingRegistry : MessageRegistry := fun msgType _ =>
  if msgType = "create" then
    match InvokeRequest.new (CreateAccountRequest.mk "idle" []) with
    | .ok request => .ok request
    | .error e => .error (.encodeError e.debug)
  else .error (.unknownMessageType msgType)

def creatingTx (id : Option String) (sender : SenderSpec) : GenesisTxJson :=
  ⟨id, sender, .named, "create", .object []⟩

theorem createsAccount_convertedTx (id : Option String) (sender : AccountId) :
    (convertedTx id sender).CreatesAccount := ⟨rfl, rfl⟩

def Succeeds {ε α : Type} : Outcome (Except ε α) → Bool
  | .done (.ok _) => true
  | _ => false

theorem Succeeds.exists {ε α : Type} {o : Outcome (Except ε α)} (h : Succeeds o = true) :
    ∃ a, o = .done (.ok a) := by
  unfold Succeeds at h
  split at h
  · exact ⟨_, rfl⟩
  · cases h

def plainFile : GenesisFile := ⟨[creatingTx (some "alice") .named, creatingTx none .named]⟩

def plainTxs : List GenesisTx :=
  [convertedTx (some "alice") systemAccountId, convertedTx none systemAccountId]

theorem createsAccount_of_mem_pair {id : Option String} {sender sender' : AccountId}
    {tx : GenesisTx} (h : tx ∈ [convertedTx id sender, convertedTx none sender']) :
    tx.CreatesAccount := by
  rcases List.mem_cons.mp h with rfl | h
  · exact createsAccount_convertedTx _ _
  · rw [List.mem_singleton.mp h]
    exact createsAccount_convertedTx _ _

theorem resolvesTo_allocations_plain :
    plainFile.ResolvesTo (allocations sampleHost 3 (fun _ => .ok none) plainTxs) := by
  have hfile : plainFile.toTransactions creatingRegistry = .ok plainTxs := by decide +kernel
  have hgenesis : Succeeds (applyGenesis sampleHost 3 (fun _ => .ok none) .default plainTxs) := by
    decide +kernel
  obtain ⟨⟨state, results⟩, hgenesis⟩ := Succeeds.exists hgenesis
  exact (resolvesTo_allocations hfile hgenesis
    fun tx htx _ => createsAccount_of_mem_pair htx).1 (by decide +kernel)

/-- The second transaction is sent by the account that the first creates. -/
def referringFile : GenesisFile :=
  ⟨[creatingTx (some "alice") .named, creatingTx none (.reference "$alice")]⟩

def referringTxs : List GenesisTx :=
  [convertedTx (some "alice") systemAccountId, convertedTx none (.fromU64 1)]

/-- The reference resolves to account 1, which is the storage account; the transaction it refers to
creates account 65535. -/
theorem referringFile_not_resolvesTo :
    referringFile.toTransactions creatingRegistry = .ok referringTxs ∧
      (∃ result, applyGenesis sampleHost 3 (fun _ => .ok none) .default referringTxs =
        .done (.ok result)) ∧
      (∀ tx ∈ referringTxs, tx.id ≠ none → tx.CreatesAccount) ∧
      ¬ referringFile.ResolvesTo (allocations sampleHost 3 (fun _ => .ok none) referringTxs) := by
  refine ⟨by decide +kernel, Succeeds.exists (by decide +kernel),
    fun tx htx _ => createsAccount_of_mem_pair htx, fun hresolves => ?_⟩
  have hallocated : ("alice", AccountId.fromU64 65535) ∈
      allocations sampleHost 3 (fun _ => .ok none) referringTxs := by decide +kernel
  have hresolved := hresolves 1 _ rfl "alice" (by decide) _ hallocated
  exact absurd hresolved (by decide)

end Evolve.Genesis
