import Mathlib
import Evolve.Eth.RegistryCalls
import Evolve.Genesis.Apply
import Evolve.Rpc.ChainIndex
import Evolve.Sdk.StorageCalls
import Evolve.Stf.Queries

/-! The state querier of the RPC server.  It reads balances, nonces and storage words directly from
the storage, under keys that it builds itself.  Those of balances and nonces are the keys that
account code uses, so that the reads are what queries of the accounts answer.  Those of storage
words lack the first byte of the keys that account storage has. -/

namespace Evolve

open Machine Borsh Effects Eth

/-- The kind of `RpcError` that a read of the state fails with. -/
structure InternalError where
  message : String
deriving DecidableEq

structure StorageStateQuerier where
  storage : ReadonlyKV
  tokenAccountId : AccountId

namespace Eth

def lookupContractAccountIdInStorage (storage : ReadonlyKV) (address : Address) :
    SdkResult (Option AccountId) :=
  lookupInStorage AccountId storage (contractAddrToIdKey address)

end Eth

namespace StorageStateQuerier

def internalError (doing : String) (e : ErrorCode) : InternalError := ⟨doing ++ ": " ++ e.debug⟩

section

variable (querier : StorageStateQuerier)

def readRawStorage (key : Bytes) : Except InternalError (Option Bytes) :=
  (querier.storage key).mapError (internalError "storage read")

/-- Reads a number, which is zero if nothing is stored. -/
def readNumber (V : Type) [Encodable V] [Zero V] (doing : String) (key : Bytes) :
    Except InternalError V := do
  match ← querier.readRawStorage key with
  | some value => (Message.get value).mapError (internalError doing)
  | none => .ok 0

def readNonce (account : AccountId) : Except InternalError UInt64 :=
  querier.readNumber UInt64 "decode nonce" (accountStoragePrefix :: (account.asBytes ++ [0]))

def readBalance (account : AccountId) : Except InternalError U128 := do
  let encoded ← (Message.new account).mapError (internalError "encode account id")
  querier.readNumber U128 "decode balance"
    (accountStoragePrefix :: (querier.tokenAccountId.asBytes ++ 1 :: encoded))

def resolveContractAccountId (address : Address) : Except InternalError (Option AccountId) :=
  (lookupContractAccountIdInStorage querier.storage address).mapError
    (internalError "lookup contract account id")

def resolveAccountId (address : Address) : Except InternalError (Option AccountId) := do
  match ← (lookupAccountIdInStorage querier.storage address).mapError
    (internalError "lookup account id") with
  | some account => .ok (some account)
  | none => querier.resolveContractAccountId address

def getBalance (address : Address) : Except InternalError U256 := do
  match ← querier.resolveAccountId address with
  | none => .ok 0
  | some account =>
    let balance ← querier.readBalance account
    .ok (ChainIndex.u256 balance)

def getTransactionCount (address : Address) : Except InternalError UInt64 := do
  match ← querier.resolveAccountId address with
  | none => .ok 0
  | some account => querier.readNonce account

end

/-! ### Storage words -/

variable {querier : StorageStateQuerier} {address : Address} {account : AccountId}

def sampleAddress : Address := .repeatByte 20 9

def sampleAccount : AccountId := .fromU64 30

theorem resolveAccountId_of_registered
    (h : lookupAccountIdInStorage querier.storage address = .ok (some account)) :
    querier.resolveAccountId address = .ok (some account) := by
  unfold resolveAccountId
  rw [h]
  rfl

theorem readNumber_toOption {K V : Type} [Encodable K] [Encodable V] [Zero V]
    (querier : StorageStateQuerier) (owner : AccountId) (m : Map K V) (key : K) {bytes : Bytes}
    (hkey : m.makeKey key = .ok bytes) (doing : String) :
    (querier.readNumber V doing (Invoker.accountStorageKey owner bytes)).toOption =
      (m.read (.new querier.storage) owner key).toOption.map (·.getD 0) := by
  have hlookup : (ExecutionState.new querier.storage).lookup = querier.storage := rfl
  unfold readNumber readRawStorage Map.read
  rw [hkey, hlookup]
  show _ = Option.map _ (querier.storage (Invoker.accountStorageKey owner bytes) >>= _).toOption
  rcases querier.storage (Invoker.accountStorageKey owner bytes) with e | _ | value
  · rfl
  · rfl
  · show ((Message.get value : SdkResult V).mapError _).toOption =
      Option.map _ ((Message.get value : SdkResult V).map some).toOption
    cases (Message.get value : SdkResult V) <;> rfl

theorem getTransactionCount_toOption
    (h : lookupAccountIdInStorage querier.storage address = .ok (some account)) :
    (querier.getTransactionCount address).toOption =
      (EthEoaAccount.nonce.read (.new querier.storage) account ()).toOption.map (·.getD 0) := by
  unfold getTransactionCount
  rw [resolveAccountId_of_registered h]
  exact querier.readNumber_toOption account EthEoaAccount.nonce () rfl "decode nonce"

theorem getBalance_toOption
    (h : lookupAccountIdInStorage querier.storage address = .ok (some account)) :
    (querier.getBalance address).toOption =
      (Token.balances.read (.new querier.storage) querier.tokenAccountId account).toOption.map
        fun balance => ChainIndex.u256 (balance.getD 0) := by
  have hbytes : Token.balances.makeKey account = .ok (1 :: account.asBytes) := rfl
  have hbalance : querier.readBalance account = querier.readNumber U128 "decode balance"
      (Invoker.accountStorageKey querier.tokenAccountId (1 :: account.asBytes)) := rfl
  have hread := querier.readNumber_toOption querier.tokenAccountId Token.balances account hbytes
    "decode balance"
  unfold getBalance
  rw [resolveAccountId_of_registered h]
  calc (querier.readBalance account >>= fun balance => .ok (ChainIndex.u256 balance)).toOption
      = (querier.readBalance account).toOption.map ChainIndex.u256 := by
        cases querier.readBalance account <;> rfl
    _ = _ := by
        rw [hbalance, hread, Option.map_map]
        rfl

/-! ### What queries of the accounts answer -/

/-- The read gives what `ofAnswer` makes of the answer to the query, and fails if the query does.
A query with limited gas may run out of it instead. -/
def ReadsAs {E V W : Type} [Encodable W] (read : Except E V) (ofAnswer : W → V)
    (query : Outcome (SdkResult InvokeResponse × World)) (gas : GasCounter) : Prop :=
  ∃ response w, query = .done (response, w) ∧
    (read.toOption = (response.bind InvokeResponse.get).toOption.map ofAnswer ∨
      response = .error errOutOfGas ∧ gas ≠ .infinite)

section

variable {E V W A : Type} [Encodable A] {host : Host} {fuel : Nat} {storage : ReadonlyKV}
  {gas : GasCounter}

theorem readsAs_of_follows {read : Except E V} {ofAnswer : A → V} {stored : SdkResult W}
    (answer : W → A) {m : Run InvokeResponse} {w : World}
    (h : Exec.Follows gas.OutOf (stored >>= fun value => InvokeResponse.new (answer value)) m w)
    (hencodes : ∀ a : A, (Encodable.codec : Codec A).Encodes a)
    (hread : read.toOption = stored.toOption.map fun value => ofAnswer (answer value)) :
    ReadsAs read ofAnswer (m w) gas := by
  obtain ⟨response, w', hrun, hresponse | ⟨e, rfl, rfl, hlimit⟩⟩ := h
  · refine ⟨response, w', hrun, .inl ?_⟩
    rw [hread]
    cases stored with
    | error e =>
      cases response with
      | error e' => rfl
      | ok response => cases hresponse
    | ok value =>
      obtain ⟨expected, hnew⟩ := InvokeResponse.new_of_encodes (hencodes (answer value))
      replace hresponse : response.toOption = (InvokeResponse.new (answer value)).toOption :=
        hresponse
      rw [hnew] at hresponse
      cases response with
      | error e' => cases hresponse
      | ok response =>
        cases hresponse
        show _ = Option.map ofAnswer (InvokeResponse.get expected : SdkResult A).toOption
        rw [InvokeResponse.get_new hnew]
        rfl
  · exact ⟨_, w', hrun, .inr ⟨rfl, hlimit⟩⟩

/-- A query that reads an entry of a map and answers with what `answer` makes of it. -/
theorem follows_readAndAnswer {K : Type} [Encodable K] [Encodable W] (m : Map K W)
    (answer : Option W → A) {frame : Invoker} {key : K} {w : World} (hkey : Storable key) {n : Nat}
    (hsize : (Encodable.codec : Codec W).HasSize n) (hn : n < 256 ^ 4)
    (hgas : gas = .infinite → w.gasCounter = .infinite) :
    Exec.Follows gas.OutOf
      (m.read w.storage frame.whoami key >>= fun stored => InvokeResponse.new (answer stored))
      ((QueryProgram.lift do
        let stored ← m.mayGet frame.env key
        Prog.ofExcept (InvokeResponse.new (answer stored))).run
          (environment host (fuel + 1) frame)) w := by
  rw [QueryProgram.lift_bind, Prog.run_bind]
  exact (m.follows_mayGet hgas host fuel frame hkey hsize hn).bind fun _ _ _ _ => .ofExcept

theorem follows_getBalance {token : AccountId} (h : Stf.RunsCode host storage token Token.code)
    (account : AccountId) :
    Exec.Follows gas.OutOf
      (Token.balances.read (.new storage) token account >>= InvokeResponse.new)
      (Stf.runTypedQuery host (fuel + 2) token (Token.GetBalanceMsg.mk account))
      ⟨.new storage, gas, []⟩ := by
  obtain ⟨request, hrequest⟩ := InvokeRequest.new_of_encodes
    (show (Encodable.codec : Codec Token.GetBalanceMsg).Encodes ⟨account⟩ from
      Codec.encodes_fixed 32 _)
  obtain ⟨hfunction, hget⟩ := InvokeRequest.new_spec hrequest
  refine Stf.follows_typedQuery h hrequest ?_
  set frame := (Invoker.newForQuery token).branchQuery token
  have hquery : Token.code.query frame.env request = (do
      let stored ← Token.balances.mayGet frame.env account
      Prog.ofExcept (InvokeResponse.new (id stored))) := by
    show Token.query frame.env request = _
    unfold Token.query
    rw [hfunction, if_neg (by decide), if_pos rfl, hget]
    rfl
  rw [hquery]
  exact follows_readAndAnswer Token.balances id (storable_accountId account) Codec.hasSize_u128
    (by decide) id

theorem follows_getNonce {crypto : Crypto} {account : AccountId}
    (h : Stf.RunsCode host storage account (EthEoaAccount.code crypto)) :
    Exec.Follows gas.OutOf
      (EthEoaAccount.nonce.read (.new storage) account () >>= fun stored =>
        InvokeResponse.new (stored.getD 0))
      (Stf.runTypedQuery host (fuel + 2) account EthEoaAccount.GetNonceMsg.mk)
      ⟨.new storage, gas, []⟩ := by
  obtain ⟨request, hrequest⟩ := InvokeRequest.new_of_encodes
    (show (Encodable.codec : Codec EthEoaAccount.GetNonceMsg).Encodes ⟨⟩ from Codec.encodes_unit ())
  obtain ⟨hfunction, hget⟩ := InvokeRequest.new_spec hrequest
  refine Stf.follows_typedQuery h hrequest ?_
  set frame := (Invoker.newForQuery account).branchQuery account
  have hquery : (EthEoaAccount.code crypto).query frame.env request = (do
      let stored ← EthEoaAccount.nonce.mayGet frame.env ()
      Prog.ofExcept (InvokeResponse.new (stored.getD 0))) := by
    show EthEoaAccount.query frame.env request = _
    unfold EthEoaAccount.query EthEoaAccount.getNonce
    rw [hfunction, if_pos rfl, hget]
    exact Prog.bind_assoc (EthEoaAccount.nonce.mayGet frame.env ()) _ _
  rw [hquery]
  exact follows_readAndAnswer EthEoaAccount.nonce (·.getD 0) (storable_unit ()) Codec.hasSize_u64
    (by decide) id

end

/-- For every storage and every address that is registered for an account, and whatever the gas of
the queries: the balance and the transaction count of the address are what the token answers to
`get_balance` and the account answers to `get_nonce` on the same storage. -/
theorem reads_as_queries (querier : StorageStateQuerier) {crypto : Crypto} {host : Host}
    (hregistered : lookupAccountIdInStorage querier.storage address = .ok (some account))
    (htoken : Stf.RunsCode host querier.storage querier.tokenAccountId Token.code)
    (haccount : Stf.RunsCode host querier.storage account (EthEoaAccount.code crypto))
    (fuel : Nat) (gas : GasCounter) :
    ReadsAs (querier.getBalance address)
        (fun balance : Option U128 => ChainIndex.u256 (balance.getD 0))
        (Stf.query host (fuel + 2) querier.storage querier.tokenAccountId
          (Token.GetBalanceMsg.mk account) gas) gas ∧
      ReadsAs (querier.getTransactionCount address) (fun nonce : UInt64 => nonce)
        (Stf.query host (fuel + 2) querier.storage account EthEoaAccount.GetNonceMsg.mk gas)
        gas := by
  constructor
  · refine readsAs_of_follows id (follows_getBalance htoken account) (fun balance => ?_)
      (getBalance_toOption hregistered)
    exact (Codec.encodes_option Codec.u128 balance).mpr fun amount _ => Codec.encodes_u128 amount
  · exact readsAs_of_follows (Option.getD · 0) (follows_getNonce haccount) Codec.encodes_u64
      (getTransactionCount_toOption hregistered)

/-! ### An address with a balance -/

/-- The sample account is registered for the sample address, with the balance 5 and the nonce 3. -/
def sampleBank : ReadonlyKV := fun key =>
  if key = Invoker.accountStorageKey runtimeAccountId (addrToIdKey sampleAddress) then
    (Message.new sampleAccount).map some
  else if key = accountCodeIdentifierKey (.fromU64 20) then (Message.new "token").map some
  else if key = accountCodeIdentifierKey sampleAccount then (Message.new ethEoaCodeId).map some
  else if key = Invoker.accountStorageKey (.fromU64 20) (1 :: sampleAccount.asBytes) then
    (Message.new (5 : U128)).map some
  else if key = Invoker.accountStorageKey sampleAccount [0] then (Message.new (3 : UInt64)).map some
  else .ok none

def bankHost : Host :=
  withEoaCode sampleCrypto
    { sampleHost with withCode := fun _ => .ok (some Token.code) }

theorem sampleBank_reads :
    lookupAccountIdInStorage sampleBank sampleAddress = .ok (some sampleAccount) ∧
      (ExecutionState.new sampleBank).codeIdentifier (.fromU64 20) = .ok (some "token") ∧
      (ExecutionState.new sampleBank).codeIdentifier sampleAccount = .ok (some ethEoaCodeId) ∧
      getBalance ⟨sampleBank, .fromU64 20⟩ sampleAddress = .ok 5 ∧
      getTransactionCount ⟨sampleBank, .fromU64 20⟩ sampleAddress = .ok 3 := by
  decide +kernel

/-- The balance and the nonce that are read are those that queries answer. -/
theorem sampleBank_reads_as_queries :
    getBalance ⟨sampleBank, .fromU64 20⟩ sampleAddress = .ok 5 ∧
      getTransactionCount ⟨sampleBank, .fromU64 20⟩ sampleAddress = .ok 3 ∧
      ReadsAs (getBalance ⟨sampleBank, .fromU64 20⟩ sampleAddress)
        (fun balance : Option U128 => ChainIndex.u256 (balance.getD 0))
        (Stf.query bankHost 2 sampleBank (.fromU64 20) (Token.GetBalanceMsg.mk sampleAccount)
          .infinite) .infinite := by
  obtain ⟨hregistered, htoken, haccount, hbalance, hnonce⟩ := sampleBank_reads
  refine ⟨hbalance, hnonce, ?_⟩
  exact (reads_as_queries ⟨sampleBank, .fromU64 20⟩ hregistered
    ⟨by decide, by decide, "token", htoken, rfl⟩
    ⟨by decide, by decide, ethEoaCodeId, haccount, rfl⟩ 0 .infinite).1

end StorageStateQuerier

end Evolve
