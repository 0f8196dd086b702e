import Mathlib
import Evolve.Lib.Borsh

/-! The types of `evolve_core`: error codes, account identities, messages, requests and responses,
and the messages of the runtime and storage accounts. -/

namespace Evolve

open Machine Borsh

/-! ### Errors -/

structure ErrorCode where
  id : UInt16
  arg : UInt16
deriving DecidableEq

abbrev SdkResult (α : Type) := Except ErrorCode α

namespace ErrorCode

def new (id : UInt16) : ErrorCode := ⟨id, 0⟩

def newWithArg (id arg : UInt16) : ErrorCode := ⟨id, arg⟩

end ErrorCode

def fnv1aHash (bytes : Bytes) : UInt8 :=
  (bytes.foldl (fun hash b => (hash ^^^ b.toUInt64) * 0x100000001b3)
    (0xcbf29ce484222325 : UInt64)).toUInt8

/-- The upper byte of every error identifier.  `crate_namespace` reads `CARGO_PKG_NAME` where it is
compiled, in `evolve_core`, so that all crates share one namespace. -/
def crateNamespace : UInt8 := fnv1aHash (Codec.utf8 "evolve_core")

def defineError (localId : UInt16) : ErrorCode :=
  ErrorCode.new ((crateNamespace.toUInt16 <<< 8) ||| (localId &&& 0xFF))

def errEncoding : ErrorCode := defineError 0x01
def errUnknownFunction : ErrorCode := defineError 0x02
def errUnauthorized : ErrorCode := defineError 0x04
def errNotPayable : ErrorCode := defineError 0x05

def maxStorageKeySize : Nat := 254

/-! ### Accounts -/

@[ext] structure AccountId where
  bytes : FixedBytes 32
deriving DecidableEq

namespace AccountId

def invalid : AccountId := ⟨FixedBytes.repeatByte 32 0xFF⟩

def fromU64 (n : UInt64) : AccountId :=
  ⟨⟨List.replicate 24 0 ++ beBytes 8 n.toNat, by simp⟩⟩

def asBytes (a : AccountId) : Bytes := a.bytes.bytes

/-- The next identity in big-endian order, wrapping after the last. -/
def increase (a : AccountId) : AccountId :=
  ⟨⟨(increment a.bytes.bytes.reverse).reverse, by simp [a.bytes.length_eq]⟩⟩

def toNat (a : AccountId) : Nat := a.bytes.toNat

@[simp] theorem length_asBytes (a : AccountId) : a.asBytes.length = 32 := a.bytes.length_eq

theorem asBytes_inj {a b : AccountId} : a.asBytes = b.asBytes ↔ a = b :=
  ⟨fun h => AccountId.ext (FixedBytes.ext h), fun h => h ▸ rfl⟩

theorem toNat_inj {a b : AccountId} : a.toNat = b.toNat ↔ a = b := by
  rw [toNat, toNat, FixedBytes.toNat_inj, ← AccountId.ext_iff]

theorem toNat_increase (a : AccountId) : a.increase.toNat = (a.toNat + 1) % 256 ^ 32 := by
  have h := leNat_increment a.bytes.bytes.reverse
  rw [List.length_reverse, a.bytes.length_eq] at h
  simpa only [toNat, increase, FixedBytes.toNat, beNat, List.reverse_reverse] using h

end AccountId

def runtimeAccountId : AccountId := AccountId.fromU64 0

def storageAccountId : AccountId := AccountId.fromU64 1

/-! ### Messages -/

abbrev Message := Bytes

class Encodable (α : Type) where
  codec : Codec α

instance : Encodable Unit := ⟨Codec.unit⟩
instance : Encodable String := ⟨Codec.string⟩
instance : Encodable UInt64 := ⟨Codec.u64⟩
instance : Encodable U128 := ⟨Codec.u128⟩
instance : Encodable AccountId :=
  ⟨(Codec.fixed 32).iso AccountId.mk AccountId.bytes fun _ => rfl⟩
instance {α : Type} [Encodable α] : Encodable (Option α) := ⟨Codec.option Encodable.codec⟩

def Message.new {α : Type} [Encodable α] (a : α) : SdkResult Message :=
  match (Encodable.codec : Codec α).encode a with
  | some bs => .ok bs
  | none => .error errEncoding

def Message.get {α : Type} [Encodable α] (m : Message) : SdkResult α :=
  match (Encodable.codec : Codec α).fromSlice m with
  | some a => .ok a
  | none => .error errEncoding

variable {α : Type}

theorem Message.length_of_get [Encodable α] {n : Nat} {a : α} {m : Message}
    (hsize : (Encodable.codec : Codec α).HasSize n) (h : Message.get m = .ok a) : m.length = n := by
  unfold Message.get at h
  split at h
  · rename_i hslice
    exact hsize m _ hslice
  · cases h

theorem Message.get_new [Encodable α] {a : α} {m : Message} (h : Message.new a = .ok m) :
    Message.get m = .ok a := by
  unfold Message.new at h
  split at h
  · rename_i bs hbs
    cases h
    rw [Message.get, Codec.fromSlice_encode _ hbs]
  · cases h

theorem Message.new_of_encodes [Encodable α] {a : α} (h : (Encodable.codec : Codec α).Encodes a) :
    ∃ m, Message.new a = .ok m := by
  obtain ⟨bytes, hbytes⟩ := h
  refine ⟨bytes, ?_⟩
  unfold Message.new
  rw [hbytes]

structure InvokeRequest where
  humanName : String
  function : UInt64
  message : Message
deriving DecidableEq

instance : Encodable InvokeRequest :=
  ⟨(Codec.string.pair (Codec.u64.pair Codec.bytes)).iso (fun p => ⟨p.1, p.2.1, p.2.2⟩)
    (fun r => (r.humanName, r.function, r.message)) fun _ => rfl⟩

structure InvokeResponse where
  message : Message
deriving DecidableEq

class InvokableMessage (α : Type) extends Encodable α where
  functionIdentifier : UInt64
  functionIdentifierName : String

def InvokeRequest.new {α : Type} [InvokableMessage α] (msg : α) : SdkResult InvokeRequest :=
  (Message.new msg).map fun message =>
    ⟨InvokableMessage.functionIdentifierName α, InvokableMessage.functionIdentifier α, message⟩

def InvokeRequest.newFromMessage (humanName : String) (function : UInt64) (message : Message) :
    InvokeRequest := ⟨humanName, function, message⟩

def InvokeRequest.get {α : Type} [Encodable α] (r : InvokeRequest) : SdkResult α :=
  Message.get r.message

def InvokeResponse.new {α : Type} [Encodable α] (a : α) : SdkResult InvokeResponse :=
  (Message.new a).map InvokeResponse.mk

def InvokeResponse.get {α : Type} [Encodable α] (r : InvokeResponse) : SdkResult α :=
  Message.get r.message

theorem InvokeRequest.new_spec [InvokableMessage α] {msg : α} {r : InvokeRequest}
    (h : InvokeRequest.new msg = .ok r) :
    r.function = InvokableMessage.functionIdentifier α ∧ r.get = .ok msg := by
  unfold InvokeRequest.new at h
  cases hm : Message.new msg with
  | error e => rw [hm] at h; cases h
  | ok m =>
    rw [hm] at h
    cases h
    exact ⟨rfl, Message.get_new hm⟩

theorem InvokeResponse.get_new [Encodable α] {a : α} {r : InvokeResponse}
    (h : InvokeResponse.new a = .ok r) : r.get = .ok a := by
  unfold InvokeResponse.new at h
  cases hm : Message.new a with
  | error e => rw [hm] at h; cases h
  | ok m =>
    rw [hm] at h
    cases h
    exact Message.get_new hm

theorem InvokeRequest.new_of_encodes [InvokableMessage α] {a : α}
    (h : (Encodable.codec : Codec α).Encodes a) : ∃ r, InvokeRequest.new a = .ok r := by
  obtain ⟨m, hm⟩ := Message.new_of_encodes h
  unfold InvokeRequest.new
  rw [hm]
  exact ⟨_, rfl⟩

theorem InvokeResponse.new_of_encodes [Encodable α] {a : α}
    (h : (Encodable.codec : Codec α).Encodes a) : ∃ r, InvokeResponse.new a = .ok r := by
  obtain ⟨m, hm⟩ := Message.new_of_encodes h
  unfold InvokeResponse.new
  rw [hm]
  exact ⟨_, rfl⟩

/-! ### Assets, events and blocks -/

structure FungibleAsset where
  assetId : AccountId
  amount : U128
deriving DecidableEq

structure Event where
  source : AccountId
  name : String
  contents : Message
deriving DecidableEq

structure BlockContext where
  height : UInt64
  time : UInt64
deriving DecidableEq

/-! ### Messages of the runtime account -/

def accountIdentifierPrefix : UInt8 := 0
def accountIdentifierSingletonPrefix : UInt8 := 1
def accountStoragePrefix : UInt8 := 2

structure CreateAccountRequest where
  codeId : String
  initMessage : Message

instance : InvokableMessage CreateAccountRequest where
  codec := (Codec.string.pair Codec.bytes).iso (fun p => ⟨p.1, p.2⟩)
    (fun r => (r.codeId, r.initMessage)) fun _ => rfl
  functionIdentifier := 1
  functionIdentifierName := "create_account"

structure CreateAccountResponse where
  newAccountId : AccountId
  initResponse : Message

instance : Encodable CreateAccountResponse :=
  ⟨((Encodable.codec : Codec AccountId).pair Codec.bytes).iso (fun p => ⟨p.1, p.2⟩)
    (fun r => (r.newAccountId, r.initResponse)) fun _ => rfl⟩

structure RegisterAccountAtIdRequest where
  accountId : AccountId
  codeId : String
  initMessage : Message

instance : InvokableMessage RegisterAccountAtIdRequest where
  codec := ((Encodable.codec : Codec AccountId).pair (Codec.string.pair Codec.bytes)).iso
    (fun p => ⟨p.1, p.2.1, p.2.2⟩) (fun r => (r.accountId, r.codeId, r.initMessage)) fun _ => rfl
  functionIdentifier := 2
  functionIdentifierName := "register_account_at_id"

structure MigrateRequest where
  accountId : AccountId
  newCodeId : String
  executeMessage : InvokeRequest

instance : InvokableMessage MigrateRequest where
  codec := ((Encodable.codec : Codec AccountId).pair
    (Codec.string.pair (Encodable.codec : Codec InvokeRequest))).iso
    (fun p => ⟨p.1, p.2.1, p.2.2⟩) (fun r => (r.accountId, r.newCodeId, r.executeMessage))
    fun _ => rfl
  functionIdentifier := 3
  functionIdentifierName := "migrate"

/-! ### Messages of the storage account -/

structure StorageGetRequest where
  accountId : AccountId
  key : Bytes

instance : InvokableMessage StorageGetRequest where
  codec := ((Encodable.codec : Codec AccountId).pair Codec.bytes).iso (fun p => ⟨p.1, p.2⟩)
    (fun r => (r.accountId, r.key)) fun _ => rfl
  functionIdentifier := 1
  functionIdentifierName := "storage_get"

structure StorageGetResponse where
  value : Option Message

instance : Encodable StorageGetResponse :=
  ⟨(Codec.option Codec.bytes).iso StorageGetResponse.mk StorageGetResponse.value fun _ => rfl⟩

structure StorageSetRequest where
  key : Bytes
  value : Message

instance : InvokableMessage StorageSetRequest where
  codec := (Codec.bytes.pair Codec.bytes).iso (fun p => ⟨p.1, p.2⟩)
    (fun r => (r.key, r.value)) fun _ => rfl
  functionIdentifier := 1
  functionIdentifierName := "storage_set"

structure StorageRemoveRequest where
  key : Bytes

instance : InvokableMessage StorageRemoveRequest where
  codec := Codec.bytes.iso StorageRemoveRequest.mk StorageRemoveRequest.key fun _ => rfl
  functionIdentifier := 2
  functionIdentifierName := "storage_remove"

/-! ### Messages of fungible assets -/

structure TransferMsg where
  toAccount : AccountId
  amount : U128

/-- The identifier is the first four bytes of the Keccak-256 hash of `transfer`. -/
instance : InvokableMessage TransferMsg where
  codec := ((Encodable.codec : Codec AccountId).pair Codec.u128).iso (fun p => ⟨p.1, p.2⟩)
    (fun r => (r.toAccount, r.amount)) fun _ => rfl
  functionIdentifier := 3028529107
  functionIdentifierName := "transfer"

end Evolve
