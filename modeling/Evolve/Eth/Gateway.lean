import Mathlib
import Evolve.Eth.TxContext

/-! The gateway: which byte strings it accepts as transactions, and which of their contexts are
those of the signed envelope. -/

namespace Evolve

open Machine Borsh Effects

namespace Eth

def errInvalidSignature : ErrorCode := defineError 0x10
def errUnsupportedSenderType : ErrorCode := defineError 0x1A

variable {crypto : Crypto}

/-! ### Decoder and verifiers -/

structure TypedTxDecoder where
  allowedTypes : List UInt8

def TypedTxDecoder.ethereum : TypedTxDecoder := ⟨[TxType.legacy, TxType.eip1559]⟩

variable (crypto) in
def TypedTxDecoder.decode (decoder : TypedTxDecoder) (bytes : Bytes) :
    SdkResult (TxEnvelope crypto × Bytes) := do
  let (tx, rest) ← TxEnvelope.decodeFrom crypto bytes
  if tx.txType ∈ decoder.allowedTypes then pure (tx, rest)
  else .error (errUnsupportedTxType.withArg tx.txType.toUInt16)

/-- Checks the chain of a transaction.  Its signature was checked when the sender was recovered. -/
structure EcdsaVerifier where
  chainId : UInt64
  requireChainId : Bool

def EcdsaVerifier.new (chainId : UInt64) : EcdsaVerifier := ⟨chainId, true⟩

def EcdsaVerifier.verifyChainId (verifier : EcdsaVerifier) : Option UInt64 → SdkResult Unit
  | some id => if id = verifier.chainId then .ok () else .error errInvalidChainId
  | none => if verifier.requireChainId then .error errInvalidChainId else .ok ()

def EcdsaVerifier.verifySignature (verifier : EcdsaVerifier) (tx : TxEnvelope crypto) :
    SdkResult Unit :=
  verifier.verifyChainId tx.chainId

abbrev PayloadVerifier (crypto : Crypto) := TxPayload crypto → SdkResult Unit

def eoaPayloadVerifier (inner : TxEnvelope crypto → SdkResult Unit) : PayloadVerifier crypto
  | .eoa tx => inner tx
  | .custom _ => .error errInvalidSignature

structure SignatureVerifierRegistry (crypto : Crypto) where
  verifiers : UInt16 → Option (PayloadVerifier crypto)

namespace SignatureVerifierRegistry

def registerDyn (registry : SignatureVerifierRegistry crypto) (senderType : UInt16)
    (verifier : PayloadVerifier crypto) : SignatureVerifierRegistry crypto :=
  ⟨Function.update registry.verifiers senderType (some verifier)⟩

def ethereum (chainId : UInt64) : SignatureVerifierRegistry crypto :=
  registerDyn ⟨fun _ => none⟩ SenderType.eoaSecp256k1
    (eoaPayloadVerifier (EcdsaVerifier.new chainId).verifySignature)

def verifyPayload (registry : SignatureVerifierRegistry crypto) (senderType : UInt16)
    (payload : TxPayload crypto) : SdkResult Unit :=
  match registry.verifiers senderType with
  | some verifier => verifier payload
  | none => .error (errUnsupportedSenderType.withArg senderType)

end SignatureVerifierRegistry

/-! ### The gateway -/

/-- `decodeFailed` carries the error whose debug text the source puts into its message. -/
inductive GatewayError where
  | decodeFailed (error : ErrorCode)
  | invalidChainId (expected : UInt64) (actual : Option UInt64)
  | invalidSignature
  | contractCreationNotSupported
  | trailingBytes

structure EthGateway (crypto : Crypto) where
  chainId : UInt64
  decoder : TypedTxDecoder
  verifier : SignatureVerifierRegistry crypto
  baseFee : U128

namespace EthGateway

def withBaseFee (chainId : UInt64) (baseFee : U128) : EthGateway crypto :=
  ⟨chainId, .ethereum, .ethereum chainId, baseFee⟩

def verifyContext (gateway : EthGateway crypto) (context : TxContext crypto) :
    Except GatewayError (TxContext crypto) :=
  if context.chainId.any (· ≠ gateway.chainId) then
    .error (.invalidChainId gateway.chainId context.chainId)
  else
    match gateway.verifier.verifyPayload context.senderType context.payload with
    | .ok () => .ok context
    | .error _ => .error .invalidSignature

def verifyEnvelope (gateway : EthGateway crypto) (envelope : TxEnvelope crypto) :
    Except GatewayError (TxContext crypto) :=
  if envelope.chainId ≠ some gateway.chainId then
    .error (.invalidChainId gateway.chainId envelope.chainId)
  else
    match gateway.verifier.verifyPayload SenderType.eoaSecp256k1 (.eoa envelope) with
    | .error _ => .error .invalidSignature
    | .ok () =>
      match TxContext.new envelope gateway.baseFee with
      | some context => .ok context
      | none => .error .contractCreationNotSupported

def decodeAndVerify (gateway : EthGateway crypto) (raw : Bytes) :
    Except GatewayError (TxContext crypto) :=
  if TxContext.isWireEncoded raw then
    match TxContext.decode crypto raw with
    | .ok context => gateway.verifyContext context
    | .error e => .error (.decodeFailed e)
  else
    match gateway.decoder.decode crypto raw with
    | .error e => .error (.decodeFailed e)
    | .ok (_, _ :: _) => .error .trailingBytes
    | .ok (envelope, []) => gateway.verifyEnvelope envelope

/-! ### What the gateway accepts -/

variable {gateway : EthGateway crypto} {context : TxContext crypto}

theorem verifyContext_ok {context' : TxContext crypto}
    (h : gateway.verifyContext context = .ok context') :
    context' = context ∧
      gateway.verifier.verifyPayload context.senderType context.payload = .ok () := by
  unfold verifyContext at h
  split at h
  · cases h
  · split at h
    · rename_i hverify
      cases h
      exact ⟨rfl, hverify⟩
    · cases h

theorem verifyEnvelope_ok {envelope : TxEnvelope crypto}
    (h : gateway.verifyEnvelope envelope = .ok context) :
    TxContext.new envelope gateway.baseFee = some context := by
  unfold verifyEnvelope at h
  split at h
  · cases h
  · split at h
    · cases h
    · split at h
      · rename_i hnew
        cases h
        exact hnew
      · cases h

theorem decodeAndVerify_ok {raw : Bytes} (h : gateway.decodeAndVerify raw = .ok context) :
    (TxContext.isWireEncoded raw ∧ ∃ wire, TxContext.wireMessage raw = some wire ∧
      TxContext.ofWire crypto wire = .ok context ∧
      gateway.verifier.verifyPayload context.senderType context.payload = .ok ()) ∨
    (TxContext.isWireEncoded raw = false ∧ ∃ envelope,
      gateway.decoder.decode crypto raw = .ok (envelope, []) ∧
      TxContext.new envelope gateway.baseFee = some context) := by
  unfold decodeAndVerify at h
  split at h
  · rename_i hwire
    split at h
    · rename_i decoded hdecoded
      obtain ⟨rfl, hverify⟩ := verifyContext_ok h
      rcases TxContext.decode_ok hdecoded with ⟨-, wire, hmessage, hcontext⟩ | ⟨hraw, -⟩
      · exact .inl ⟨hwire, wire, hmessage, hcontext, hverify⟩
      · exact absurd hwire (Bool.eq_false_iff.mp hraw)
    · cases h
  · rename_i hwire
    split at h
    · cases h
    · cases h
    · rename_i envelope hdecoded
      exact .inr ⟨Bool.eq_false_iff.mpr hwire, envelope, hdecoded, verifyEnvelope_ok h⟩

/-- For every accepted byte string with a secp256k1 context: what the context executes is what
`TxContext.new` builds from the signed envelope if and only if the bytes are not a wire message
whose unsigned fields differ from that envelope.  Under the verifier of the Ethereum gateway every
such context holds an envelope. -/
theorem decodeAndVerify_builtFrom_iff (gateway : EthGateway crypto) {raw : Bytes}
    {context : TxContext crypto} (h : gateway.decodeAndVerify raw = .ok context)
    (htype : context.senderType = SenderType.eoaSecp256k1) :
    (∀ envelope, context.payload = .eoa envelope →
      (context.BuiltFrom envelope gateway.baseFee ↔
        ∀ wire, TxContext.isWireEncoded raw → TxContext.wireMessage raw = some wire →
          ∃ address, envelope.toAddress = some address ∧ wire.Repeats envelope address)) ∧
    (gateway.verifier = .ethereum gateway.chainId →
      ∃ envelope, context.payload = .eoa envelope) := by
  rcases decodeAndVerify_ok h with ⟨hwire, wire, hmessage, hcontext, hverify⟩ |
    ⟨hraw, envelope, -, hnew⟩
  · constructor
    · intro envelope hpayload
      simp only [TxContext.builtFrom_iff, TxContext.ofWire_executes_iff hcontext htype hpayload]
      constructor
      · rintro hrepeats wire' - hmessage'
        cases hmessage.symm.trans hmessage'
        exact hrepeats
      · intro hrepeats
        exact hrepeats wire hwire hmessage
    · intro hverifier
      rw [hverifier, htype] at hverify
      cases hpayload : context.payload with
      | eoa envelope => exact ⟨envelope, rfl⟩
      | custom bytes => rw [hpayload] at hverify; cases hverify
  · cases haddress : envelope.toAddress with
    | none => cases (TxContext.new_none haddress).symm.trans hnew
    | some address =>
      obtain ⟨built, hbuilt, hpayload, hexec⟩ := TxContext.new_some gateway.baseFee haddress
      cases hnew.symm.trans hbuilt
      constructor
      · intro envelope' hpayload'
        cases hpayload.symm.trans hpayload'
        refine iff_of_true (TxContext.builtFrom_iff.mpr ⟨address, haddress, hexec⟩) ?_
        intro wire hwire
        rw [hraw] at hwire
        cases hwire
      · intro _
        exact ⟨envelope, hpayload⟩

/-! ### A forged wire message -/

def sampleGateway : EthGateway sampleCrypto := withBaseFee 1 0

theorem sampleGateway_accepts :
    (sampleGateway.decodeAndVerify KnownTx.first.bytes).toOption.map
      (fun c => (c.senderType, c.nonce)) = some (SenderType.eoaSecp256k1, 0) := by
  decide +kernel

theorem decodeAndVerify_builtFrom_envelope :
    ∃ context envelope, sampleGateway.decodeAndVerify KnownTx.first.bytes = .ok context ∧
      context.payload = .eoa envelope ∧ context.BuiltFrom envelope 0 := by
  have haccepts := sampleGateway_accepts
  cases hdecode : sampleGateway.decodeAndVerify KnownTx.first.bytes with
  | error e => rw [hdecode] at haccepts; cases haccepts
  | ok context =>
    rw [hdecode] at haccepts
    have htype : context.senderType = SenderType.eoaSecp256k1 :=
      (Prod.mk.inj (Option.some.inj haccepts)).1
    obtain ⟨hiff, hpayload⟩ := decodeAndVerify_builtFrom_iff sampleGateway hdecode htype
    obtain ⟨envelope, hpayload⟩ := hpayload rfl
    refine ⟨context, envelope, rfl, hpayload, (hiff envelope hpayload).mpr ?_⟩
    rintro wire ⟨⟩

/-- The envelope of the sample transaction with another nonce, gas limit, request and recipient. -/
def forgedWire : TxContextWireV1 where
  senderType := SenderType.eoaSecp256k1
  payload := .eoa KnownTx.first.bytes
  txHash := FixedBytes.repeatByte 32 9
  gasLimit := 90000
  nonce := 5
  chainId := some 1
  effectiveGasPrice := 0
  invokeRequest := Invoker.initRequest [1]
  funds := [⟨.fromU64 20, 1000⟩]
  senderAccount := .fromU64 0
  recipientAccount := some (.fromU64 66)
  senderKey := []
  authenticationPayload := []
  senderEthAddress := some signerAddress
  recipientEthAddress := none

def forgedBytes : Bytes :=
  txContextWireMagic ++ (TxContextWireV1.codec.encode forgedWire).getD []

def signedNonce : TxPayload sampleCrypto → Option UInt64
  | .eoa envelope => some envelope.nonce
  | .custom _ => none

theorem forgedBytes_accepted :
    (sampleGateway.decodeAndVerify forgedBytes).toOption.map
      (fun c => (c.senderType, c.nonce, c.recipient, c.funds, signedNonce c.payload)) =
        some (SenderType.eoaSecp256k1, 5, .fromU64 66, forgedWire.funds, some 0) := by
  decide +kernel

/-- The gateway accepts the forged message as a transaction of the signer, with a nonce, a recipient
and funds that were never signed. -/
theorem decodeAndVerify_accepts_forged_fields :
    ∃ context envelope, sampleGateway.decodeAndVerify forgedBytes = .ok context ∧
      context.senderType = SenderType.eoaSecp256k1 ∧ context.payload = .eoa envelope ∧
      context.nonce = 5 ∧ envelope.nonce = 0 ∧ context.recipient = .fromU64 66 ∧
      context.funds = forgedWire.funds ∧ ¬ context.BuiltFrom envelope 0 := by
  have haccepted := forgedBytes_accepted
  cases hdecode : sampleGateway.decodeAndVerify forgedBytes with
  | error e => rw [hdecode] at haccepted; cases haccepted
  | ok context =>
    rw [hdecode] at haccepted
    simp only [Except.toOption, Option.map_some, Option.some.injEq, Prod.mk.injEq] at haccepted
    obtain ⟨htype, hnonce, hrecipient, hfunds, hsigned⟩ := haccepted
    cases hpayload : context.payload with
    | custom bytes => rw [hpayload] at hsigned; cases hsigned
    | eoa envelope =>
      rw [hpayload] at hsigned
      have hzero : envelope.nonce = 0 := Option.some.inj hsigned
      refine ⟨context, envelope, rfl, htype, hpayload, hnonce, hzero, hrecipient, hfunds,
        fun hbuilt => ?_⟩
      obtain ⟨_, -, hexec⟩ := TxContext.builtFrom_iff.mp hbuilt
      have hsame := hexec.nonce
      rw [hnonce, hzero] at hsame
      cases hsame

end EthGateway

end Eth

end Evolve
