import Mathlib
import Evolve.Eth.Registry
import Evolve.Mempool.Pool
import Evolve.Stf.Transaction

/-! Transaction contexts: the transactions that the mempool holds and the state transition function
executes.  They are built from an Ethereum envelope or decoded from a wire format of their own. -/

namespace Evolve

open Machine Borsh Effects

namespace Eth

def errSenderMismatch : ErrorCode := defineError 0x17
def errRecipientRequired : ErrorCode := defineError 0x50

namespace SenderType

def eoaSecp256k1 : UInt16 := 0x0001
def custom : UInt16 := 0x8000

end SenderType

/-! ### The wire format -/

def txContextWireMagic : Bytes := Codec.utf8 "ctx1"

inductive TxPayloadWire where
  | eoa (raw : Bytes)
  | custom (raw : Bytes)

def TxPayloadWire.codec : Codec TxPayloadWire :=
  (Codec.bytes.sum Codec.bytes).iso (Sum.elim .eoa .custom)
    (fun | .eoa raw => .inl raw | .custom raw => .inr raw) (by rintro (_ | _) <;> rfl)

structure TxContextWireV1 where
  senderType : UInt16
  payload : TxPayloadWire
  txHash : B256
  gasLimit : UInt64
  nonce : UInt64
  chainId : Option UInt64
  effectiveGasPrice : U128
  invokeRequest : InvokeRequest
  funds : List FungibleAsset
  senderAccount : AccountId
  recipientAccount : Option AccountId
  senderKey : Bytes
  authenticationPayload : Message
  senderEthAddress : Option Address
  recipientEthAddress : Option Address

def fungibleAssetCodec : Codec FungibleAsset :=
  ((Encodable.codec : Codec AccountId).pair Codec.u128).iso (fun p => ⟨p.1, p.2⟩)
    (fun a => (a.assetId, a.amount)) fun _ => rfl

def TxContextWireV1.codec : Codec TxContextWireV1 :=
  (Codec.u16.pair <| TxPayloadWire.codec.pair <| (Codec.fixed 32).pair <| Codec.u64.pair <|
    Codec.u64.pair <| (Codec.option Codec.u64).pair <| Codec.u128.pair <|
    (Encodable.codec : Codec InvokeRequest).pair <| fungibleAssetCodec.list.pair <|
    (Encodable.codec : Codec AccountId).pair <|
    (Encodable.codec : Codec (Option AccountId)).pair <| Codec.bytes.pair <| Codec.bytes.pair <|
    (Codec.option (Codec.fixed 20)).pair (Codec.option (Codec.fixed 20))).iso
    (fun (a, b, c, d, e, f, g, h, i, j, k, l, m, n, o) =>
      ⟨a, b, c, d, e, f, g, h, i, j, k, l, m, n, o⟩)
    (fun w => (w.senderType, w.payload, w.txHash, w.gasLimit, w.nonce, w.chainId,
      w.effectiveGasPrice, w.invokeRequest, w.funds, w.senderAccount, w.recipientAccount,
      w.senderKey, w.authenticationPayload, w.senderEthAddress, w.recipientEthAddress))
    fun _ => rfl

def wireBytes (wire : TxContextWireV1) : Bytes :=
  txContextWireMagic ++ (TxContextWireV1.codec.encode wire).getD []

/-! ### Contexts -/

inductive TxPayload (crypto : Crypto) where
  | eoa (envelope : TxEnvelope crypto)
  | custom (bytes : Bytes)

inductive SenderResolution where
  | eoaAddress (address : Address)
  | account (account : AccountId)

inductive RecipientResolution where
  | eoaAddress (address : Address)
  | account (account : AccountId)
  | none
deriving DecidableEq

structure TxContext (crypto : Crypto) where
  payload : TxPayload crypto
  senderType : UInt16
  invokeRequest : InvokeRequest
  effectiveGasPrice : U128
  txHash : B256
  gasLimit : UInt64
  nonce : UInt64
  chainId : Option UInt64
  senderResolution : SenderResolution
  recipientResolution : RecipientResolution
  senderKey : Bytes
  authenticationPayload : Message
  senderEthAddress : Option Address
  recipientEthAddress : Option Address
  funds : List FungibleAsset

variable {crypto : Crypto}

def calculateEffectiveGasPrice (envelope : TxEnvelope crypto) (baseFee : U128) : U128 :=
  match envelope with
  | .legacy tx => tx.inner.tx.gasPrice
  | .eip1559 tx =>
    let fee := saturatingAdd128 baseFee tx.inner.tx.maxPriorityFeePerGas
    if tx.inner.tx.maxFeePerGas.toNat ≤ fee.toNat then tx.inner.tx.maxFeePerGas else fee

variable {envelope : TxEnvelope crypto} {context : TxContext crypto} {address : Address}

namespace TxContext

def new (envelope : TxEnvelope crypto) (baseFee : U128) : Option (TxContext crypto) := do
  let toAddress ← envelope.toAddress
  let invokeRequest ← envelope.toInvokeRequests.head?
  let authenticationPayload ← (Message.new envelope.sender).toOption
  pure {
    payload := .eoa envelope
    senderType := SenderType.eoaSecp256k1
    invokeRequest
    effectiveGasPrice := calculateEffectiveGasPrice envelope baseFee
    txHash := envelope.txHash
    gasLimit := envelope.gasLimit
    nonce := envelope.nonce
    chainId := envelope.chainId
    senderResolution := .eoaAddress envelope.sender
    recipientResolution := .eoaAddress toAddress
    senderKey := envelope.sender.bytes
    authenticationPayload
    senderEthAddress := some envelope.sender
    recipientEthAddress := some toAddress
    funds := [] }

def isWireEncoded (bytes : Bytes) : Bool :=
  bytes.length ≥ txContextWireMagic.length &&
    bytes.take txContextWireMagic.length = txContextWireMagic

variable (crypto) in
/-- The payload of the wire format.  The sender that is claimed for an envelope must be the one that
its signature recovers to. -/
def decodePayload (wire : TxContextWireV1) : SdkResult (TxPayload crypto) :=
  match wire.payload with
  | .eoa raw => do
    let envelope ← TxEnvelope.decode crypto raw
    match wire.senderEthAddress with
    | none => .error errTxDecode
    | some claimed =>
      if envelope.sender ≠ claimed then .error errSenderMismatch else .ok (.eoa envelope)
  | .custom raw => .ok (.custom raw)

def wireSenderResolution (wire : TxContextWireV1) : SdkResult SenderResolution :=
  if wire.senderType = SenderType.eoaSecp256k1 then
    match wire.senderEthAddress with
    | none => .error errTxDecode
    | some address => .ok (.eoaAddress address)
  else .ok (.account wire.senderAccount)

def wireRecipientResolution (wire : TxContextWireV1) : RecipientResolution :=
  match wire.recipientAccount, wire.recipientEthAddress with
  | some account, _ => .account account
  | none, some address => .eoaAddress address
  | none, none => .none

variable (crypto) in
def ofWire (wire : TxContextWireV1) : SdkResult (TxContext crypto) := do
  if wire.senderKey.length > maxSenderKeyLen then .error errTxDecode
  else
    let payload ← decodePayload crypto wire
    let senderResolution ← wireSenderResolution wire
    pure {
      payload
      senderType := wire.senderType
      invokeRequest := wire.invokeRequest
      effectiveGasPrice := wire.effectiveGasPrice
      txHash := wire.txHash
      gasLimit := wire.gasLimit
      nonce := wire.nonce
      chainId := wire.chainId
      senderResolution
      recipientResolution := wireRecipientResolution wire
      senderKey := wire.senderKey
      authenticationPayload := wire.authenticationPayload
      senderEthAddress := wire.senderEthAddress
      recipientEthAddress := wire.recipientEthAddress
      funds := wire.funds }

def wireMessage (bytes : Bytes) : Option TxContextWireV1 :=
  TxContextWireV1.codec.fromSlice (bytes.drop txContextWireMagic.length)

variable (crypto) in
def decode (bytes : Bytes) : SdkResult (TxContext crypto) :=
  if isWireEncoded bytes then
    match wireMessage bytes with
    | none => .error errTxDecode
    | some wire => ofWire crypto wire
  else do
    let envelope ← TxEnvelope.decode crypto bytes
    match new envelope 0 with
    | some context => .ok context
    | none => .error errRecipientRequired

/-! ### As a transaction -/

def senderAddress (context : TxContext crypto) : Option Address :=
  match context.senderResolution with
  | .eoaAddress address => some address
  | .account _ => none

def sender (context : TxContext crypto) : AccountId :=
  match context.senderResolution with
  | .account account => account
  | .eoaAddress address => deriveEthEoaAccountId crypto address

def resolveSenderAccount (context : TxContext crypto) : Program AccountId :=
  match context.senderResolution with
  | .account account => pure account
  | .eoaAddress address => do
    match ← (lookupAccountIdInEnv address).lift with
    | some account => pure account
    | none => pure (deriveEthEoaAccountId crypto address)

def recipient (context : TxContext crypto) : AccountId :=
  match context.recipientResolution with
  | .account account => account
  | .eoaAddress address => deriveEthEoaAccountId crypto address
  | .none => .invalid

def resolveRecipientAccount (context : TxContext crypto) : Program AccountId :=
  match context.recipientResolution with
  | .account account => pure account
  | .eoaAddress address => do
    match ← (lookupAccountIdInEnv address).lift with
    | some account => pure account
    | none =>
      match ← (lookupContractAccountIdInEnv address).lift with
      | some account => pure account
      | none => resolveOrCreateEoaAccount crypto address
  | .none => Prog.throw errRecipientRequired

def senderBootstrap (context : TxContext crypto) : Option SenderBootstrap :=
  if context.senderType ≠ SenderType.eoaSecp256k1 then none
  else do
    let address ← context.senderAddress
    let initMessage ← (Message.new address).toOption
    pure ⟨ethEoaCodeId, initMessage⟩

def afterSenderBootstrap (context : TxContext crypto) (resolvedSender : AccountId) :
    Program Unit :=
  if context.senderType ≠ SenderType.eoaSecp256k1 then pure ()
  else
    match context.senderAddress with
    | none => Prog.throw errTxDecode
    | some address => ensureEoaMapping address resolvedSender

instance : Transaction (TxContext crypto) where
  sender := sender
  recipient := recipient
  request := invokeRequest
  gasLimit := gasLimit
  funds := funds
  computeIdentifier := txHash
  resolveSenderAccount context _ := context.resolveSenderAccount
  resolveRecipientAccount context _ := context.resolveRecipientAccount
  senderBootstrap := senderBootstrap
  afterSenderBootstrap context resolvedSender _ := context.afterSenderBootstrap resolvedSender

instance : MempoolTx (TxContext crypto) GasPriceOrdering where
  txId := txHash
  orderingKey context := ⟨context.effectiveGasPrice, context.nonce⟩
  senderKey context := SenderKey.new context.senderKey
  gasLimit := gasLimit

/-! ### What is executed -/

structure SameExecution (context context' : TxContext crypto) : Prop where
  sender : context.senderResolution = context'.senderResolution
  nonce : context.nonce = context'.nonce
  gasLimit : context.gasLimit = context'.gasLimit
  chainId : context.chainId = context'.chainId
  request : context.invokeRequest = context'.invokeRequest
  recipient : context.recipientResolution = context'.recipientResolution
  funds : context.funds = context'.funds
  hash : context.txHash = context'.txHash

/-- A context executes the call to `address` that an envelope describes. -/
structure Executes (context : TxContext crypto) (envelope : TxEnvelope crypto) (address : Address) :
    Prop where
  sender : context.senderResolution = .eoaAddress envelope.sender
  nonce : context.nonce = envelope.nonce
  gasLimit : context.gasLimit = envelope.gasLimit
  chainId : context.chainId = envelope.chainId
  request : context.invokeRequest = invokeRequestFromInput envelope.input
  recipient : context.recipientResolution = .eoaAddress address
  funds : context.funds = []
  hash : context.txHash = envelope.txHash

theorem Executes.sameExecution_iff {built : TxContext crypto} (h : built.Executes envelope address)
    :
    context.SameExecution built ↔ context.Executes envelope address := by
  constructor
  · intro hsame
    exact ⟨hsame.sender.trans h.sender, hsame.nonce.trans h.nonce, hsame.gasLimit.trans h.gasLimit,
      hsame.chainId.trans h.chainId, hsame.request.trans h.request,
      hsame.recipient.trans h.recipient, hsame.funds.trans h.funds, hsame.hash.trans h.hash⟩
  · intro hexec
    exact ⟨hexec.sender.trans h.sender.symm, hexec.nonce.trans h.nonce.symm,
      hexec.gasLimit.trans h.gasLimit.symm, hexec.chainId.trans h.chainId.symm,
      hexec.request.trans h.request.symm, hexec.recipient.trans h.recipient.symm,
      hexec.funds.trans h.funds.symm, hexec.hash.trans h.hash.symm⟩

theorem new_none {baseFee : U128} (h : envelope.toAddress = none) :
    new envelope baseFee = none := by
  simp [new, h]

theorem new_some (baseFee : U128) (h : envelope.toAddress = some address) :
    ∃ built, new envelope baseFee = some built ∧ built.payload = .eoa envelope ∧
      built.Executes envelope address := by
  have hrequests : envelope.toInvokeRequests = [invokeRequestFromInput envelope.input] := by
    simp [TxEnvelope.toInvokeRequests, h]
  unfold new
  rw [h, hrequests]
  exact ⟨_, rfl, rfl, rfl, rfl, rfl, rfl, rfl, rfl, rfl, rfl⟩

/-- A context agrees with the one that `new` builds from an envelope. -/
def BuiltFrom (context : TxContext crypto) (envelope : TxEnvelope crypto) (baseFee : U128) : Prop :=
  ∃ built, new envelope baseFee = some built ∧ context.SameExecution built

theorem builtFrom_iff {baseFee : U128} : context.BuiltFrom envelope baseFee ↔
      ∃ address, envelope.toAddress = some address ∧ context.Executes envelope address := by
  constructor
  · rintro ⟨built, hnew, hsame⟩
    cases haddress : envelope.toAddress with
    | none => cases (new_none haddress).symm.trans hnew
    | some address =>
      obtain ⟨built', hnew', -, hexec⟩ := new_some baseFee haddress
      cases hnew.symm.trans hnew'
      exact ⟨address, rfl, hexec.sameExecution_iff.mp hsame⟩
  · rintro ⟨address, haddress, hcontext⟩
    obtain ⟨built, hnew, -, hexec⟩ := new_some baseFee haddress
    exact ⟨built, hnew, hexec.sameExecution_iff.mpr hcontext⟩

end TxContext

/-- The unsigned fields of a wire message repeat what the envelope in it says. -/
structure TxContextWireV1.Repeats (wire : TxContextWireV1) (envelope : TxEnvelope crypto)
    (address : Address) : Prop where
  nonce : wire.nonce = envelope.nonce
  gasLimit : wire.gasLimit = envelope.gasLimit
  chainId : wire.chainId = envelope.chainId
  request : wire.invokeRequest = invokeRequestFromInput envelope.input
  recipientAccount : wire.recipientAccount = none
  recipientEthAddress : wire.recipientEthAddress = some address
  funds : wire.funds = []
  hash : wire.txHash = envelope.txHash

namespace TxContext

variable {wire : TxContextWireV1}

theorem decodePayload_eoa (h : decodePayload crypto wire = .ok (.eoa envelope)) :
    wire.senderEthAddress = some envelope.sender := by
  unfold decodePayload at h
  split at h
  · rename_i raw _
    cases hdecode : TxEnvelope.decode crypto raw with
    | error e => rw [hdecode] at h; cases h
    | ok decoded =>
      rw [hdecode] at h
      replace h : (match wire.senderEthAddress with
        | none => .error errTxDecode
        | some claimed => if decoded.sender ≠ claimed then .error errSenderMismatch
            else .ok (.eoa decoded)) = (.ok (.eoa envelope) : SdkResult (TxPayload crypto)) := h
      split at h
      · cases h
      · rename_i claimed hclaimed
        split at h
        · cases h
        · rename_i hsame
          cases h
          rw [hclaimed, not_not.mp hsame]
  · cases h

theorem wireSenderResolution_eoa (htype : wire.senderType = SenderType.eoaSecp256k1)
    (haddress : wire.senderEthAddress = some address) :
    wireSenderResolution wire = .ok (.eoaAddress address) := by
  simp [wireSenderResolution, htype, haddress]

theorem wireRecipientResolution_eoaAddress :
    wireRecipientResolution wire = .eoaAddress address ↔
      wire.recipientAccount = none ∧ wire.recipientEthAddress = some address := by
  unfold wireRecipientResolution
  cases wire.recipientAccount <;> cases wire.recipientEthAddress <;> simp

/-- A context takes its payload and its sender from a wire message after checking them, and what it
executes as it is there. -/
structure TakenFrom (context : TxContext crypto) (wire : TxContextWireV1) : Prop where
  payload : decodePayload crypto wire = .ok context.payload
  sender : wireSenderResolution wire = .ok context.senderResolution
  senderType : context.senderType = wire.senderType
  nonce : context.nonce = wire.nonce
  gasLimit : context.gasLimit = wire.gasLimit
  chainId : context.chainId = wire.chainId
  request : context.invokeRequest = wire.invokeRequest
  recipient : context.recipientResolution = wireRecipientResolution wire
  funds : context.funds = wire.funds
  hash : context.txHash = wire.txHash

theorem ofWire_ok (h : ofWire crypto wire = .ok context) : context.TakenFrom wire := by
  unfold ofWire at h
  split at h
  · cases h
  cases hp : decodePayload crypto wire with
  | error e => rw [hp] at h; cases h
  | ok payload =>
    cases hs : wireSenderResolution wire with
    | error e => rw [hp, hs] at h; cases h
    | ok resolution =>
      rw [hp, hs] at h
      cases h
      exact ⟨hp, hs, rfl, rfl, rfl, rfl, rfl, rfl, rfl, rfl⟩

theorem decode_ok {bytes : Bytes} (h : decode crypto bytes = .ok context) :
    (isWireEncoded bytes ∧ ∃ wire, wireMessage bytes = some wire ∧
      ofWire crypto wire = .ok context) ∨
    (isWireEncoded bytes = false ∧ ∃ envelope, TxEnvelope.decode crypto bytes = .ok envelope ∧
      new envelope 0 = some context) := by
  unfold decode at h
  split at h
  · rename_i hwire
    cases hmessage : wireMessage bytes with
    | none => rw [hmessage] at h; cases h
    | some wire =>
      rw [hmessage] at h
      exact .inl ⟨hwire, wire, rfl, h⟩
  · rename_i hwire
    refine .inr ⟨Bool.eq_false_iff.mpr hwire, ?_⟩
    cases henvelope : TxEnvelope.decode crypto bytes with
    | error e => rw [henvelope] at h; cases h
    | ok envelope =>
      rw [henvelope] at h
      replace h : (match new envelope 0 with
        | some context => .ok context
        | none => .error errRecipientRequired) = (.ok context : SdkResult (TxContext crypto)) := h
      cases hnew : new envelope 0 with
      | none => rw [hnew] at h; cases h
      | some built =>
        rw [hnew] at h
        cases h
        exact ⟨envelope, rfl, hnew⟩

/-- A wire message that is accepted names the signer of its envelope as the sender.  The rest of
what is executed is what its unsigned fields say. -/
theorem ofWire_executes_iff (h : ofWire crypto wire = .ok context)
    (htype : context.senderType = SenderType.eoaSecp256k1)
    (hpayload : context.payload = .eoa envelope) :
    context.Executes envelope address ↔ wire.Repeats envelope address := by
  have taken := ofWire_ok h
  have hsender : context.senderResolution = .eoaAddress envelope.sender := by
    have haddress := decodePayload_eoa (hpayload ▸ taken.payload)
    have hresolution := wireSenderResolution_eoa (taken.senderType.symm.trans htype) haddress
    exact Except.ok.inj (taken.sender.symm.trans hresolution)
  constructor
  · intro hexec
    obtain ⟨haccount, haddress⟩ :=
      wireRecipientResolution_eoaAddress.mp (taken.recipient.symm.trans hexec.recipient)
    exact ⟨taken.nonce.symm.trans hexec.nonce, taken.gasLimit.symm.trans hexec.gasLimit,
      taken.chainId.symm.trans hexec.chainId, taken.request.symm.trans hexec.request, haccount,
      haddress, taken.funds.symm.trans hexec.funds, taken.hash.symm.trans hexec.hash⟩
  · intro hwire
    have hrecipient := wireRecipientResolution_eoaAddress.mpr
      ⟨hwire.recipientAccount, hwire.recipientEthAddress⟩
    exact ⟨hsender, taken.nonce.trans hwire.nonce, taken.gasLimit.trans hwire.gasLimit,
      taken.chainId.trans hwire.chainId, taken.request.trans hwire.request,
      taken.recipient.trans hrecipient, taken.funds.trans hwire.funds, taken.hash.trans hwire.hash⟩

end TxContext

end Eth

end Evolve
