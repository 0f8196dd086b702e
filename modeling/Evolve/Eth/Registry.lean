import Mathlib
import Evolve.Eth.Envelope
import Evolve.Sdk.Collections

/-! The registry of Ethereum addresses: which account an address belongs to, and the programs that
look addresses up and register them. -/

namespace Evolve

open Machine Borsh Effects

namespace Eth

instance : Encodable Address := ⟨Codec.fixed 20⟩

def errAddressAccountConflict : ErrorCode := defineError 0x5A

def ethEoaCodeId : String := "EthEoaAccount"

/-! ### Account identities -/

def domainEoaEthV1 : Bytes := Codec.utf8 "eoa:eth:v1"

def deriveAccountId (crypto : Crypto) (domainTag payload : Bytes) : AccountId :=
  ⟨crypto.keccak256 (domainTag ++ payload)⟩

def deriveEthEoaAccountId (crypto : Crypto) (address : Address) : AccountId :=
  deriveAccountId crypto domainEoaEthV1 address.bytes

/-! ### Lookups -/

def eoaAddrToIdPrefix : Bytes := Codec.utf8 "registry/eoa/eth/a2i/"
def eoaIdToAddrPrefix : Bytes := Codec.utf8 "registry/eoa/eth/i2a/"
def contractAddrToIdPrefix : Bytes := Codec.utf8 "registry/contract/runtime/a2i/"

def addrToIdKey (address : Address) : Bytes := eoaAddrToIdPrefix ++ address.bytes

def idToAddrKey (account : AccountId) : Bytes := eoaIdToAddrPrefix ++ account.asBytes

def contractAddrToIdKey (address : Address) : Bytes := contractAddrToIdPrefix ++ address.bytes

def lookupInEnv (V : Type) [Encodable V] (key : Bytes) : QueryProgram (Option V) := do
  let response ← queryAccount StorageGetResponse storageAccountId
    (StorageGetRequest.mk runtimeAccountId key)
  Prog.ofExcept (Map.decodeValue response.value)

def lookupAccountIdInEnv (address : Address) : QueryProgram (Option AccountId) :=
  lookupInEnv AccountId (addrToIdKey address)

def lookupAddressInEnv (account : AccountId) : QueryProgram (Option Address) :=
  lookupInEnv Address (idToAddrKey account)

def lookupContractAccountIdInEnv (address : Address) : QueryProgram (Option AccountId) :=
  lookupInEnv AccountId (contractAddrToIdKey address)

/-! ### Registration -/

/-- The mapping as it is, if neither direction contradicts the pair. -/
def ensureMappingConflictFree (address : Address) (account : AccountId) :
    QueryProgram (Option AccountId × Option Address) := do
  let forward ← lookupAccountIdInEnv address
  let reverse ← lookupAddressInEnv account
  if forward.any (· ≠ account) then Prog.throw errAddressAccountConflict
  else if reverse.any (· ≠ address) then Prog.throw errAddressAccountConflict
  else pure (forward, reverse)

def setMapping (address : Address) (account : AccountId) : Program Unit := do
  let (forward, reverse) ← (ensureMappingConflictFree address account).lift
  if forward.isSome ∧ reverse.isSome then pure ()
  else
    let id ← Prog.ofExcept (Message.new account)
    execAccount Unit storageAccountId (StorageSetRequest.mk (addrToIdKey address) id) []
    let addr ← Prog.ofExcept (Message.new address)
    execAccount Unit storageAccountId (StorageSetRequest.mk (idToAddrKey account) addr) []

def ensureEoaMapping (address : Address) (account : AccountId) : Program Unit := do
  let (forward, reverse) ← (ensureMappingConflictFree address account).lift
  if forward.isSome ∧ reverse.isSome then pure ()
  else setMapping address account

def resolveOrCreateEoaAccount (crypto : Crypto) (address : Address) : Program AccountId := do
  match ← (lookupAccountIdInEnv address).lift with
  | some account => pure account
  | none =>
    let account := deriveEthEoaAccountId crypto address
    registerAccountAtId account ethEoaCodeId address
    ensureEoaMapping address account
    pure account

end Eth

end Evolve
