import Mathlib
import Evolve.Eth.Authentication

/-! Encoding a transaction context and decoding it again.  A context with an envelope is encoded as
the envelope alone, so what its other fields say is lost. -/

namespace Evolve

open Machine Borsh Effects

namespace Eth

variable {crypto : Crypto}

/-! ### Contexts with other payloads -/

structure TxContextMeta where
  txHash : B256
  gasLimit : UInt64
  nonce : UInt64
  chainId : Option UInt64
  effectiveGasPrice : U128
  invokeRequest : InvokeRequest
  funds : List FungibleAsset
  senderAccount : AccountId
  recipientAccount : Option AccountId
  senderKey : Bytes
  authenticationPayload : Message
  senderEthAddress : Option Address
  recipientEthAddress : Option Address

/-- An Ethereum transaction whose sender is authenticated in some other way. -/
structure EthIntentPayload where
  envelope : Bytes
  authProof : Bytes

namespace EthIntentPayload

def codec : Codec EthIntentPayload :=
  (Codec.bytes.pair Codec.bytes).iso (fun p => ⟨p.1, p.2⟩) (fun i => (i.envelope, i.authProof))
    fun _ => rfl

variable (crypto) in
def decodeEnvelope (intent : EthIntentPayload) : SdkResult (TxEnvelope crypto) :=
  TxEnvelope.decode crypto intent.envelope

end EthIntentPayload

def SenderResolution.keyBytes : SenderResolution → Bytes
  | .eoaAddress address => address.bytes
  | .account id => id.bytes.bytes

namespace TxContextMeta

def senderResolution (senderType : UInt16) (info : TxContextMeta) : Option SenderResolution :=
  if senderType = SenderType.eoaSecp256k1 then info.senderEthAddress.map .eoaAddress
  else some (.account info.senderAccount)

def recipientResolution (info : TxContextMeta) : RecipientResolution :=
  match info.recipientAccount, info.recipientEthAddress with
  | some account, _ => .account account
  | none, some address => .eoaAddress address
  | none, none => .none

end TxContextMeta

namespace TxContext

def fromPayload (payload : TxPayload crypto) (senderType : UInt16) (info : TxContextMeta) :
    Option (TxContext crypto) := do
  let senderResolution ← info.senderResolution senderType
  let senderKey :=
    if info.senderKey.isEmpty then senderResolution.keyBytes else info.senderKey
  let _ ← SenderKey.new senderKey
  pure {
    payload
    senderType
    invokeRequest := info.invokeRequest
    effectiveGasPrice := info.effectiveGasPrice
    txHash := info.txHash
    gasLimit := info.gasLimit
    nonce := info.nonce
    chainId := info.chainId
    senderResolution
    recipientResolution := info.recipientResolution
    senderKey
    authenticationPayload := info.authenticationPayload
    senderEthAddress := info.senderEthAddress
    recipientEthAddress := info.recipientEthAddress
    funds := info.funds }

variable (crypto) in
def fromEthIntent (senderType : UInt16) (intent : EthIntentPayload) (senderAccount : AccountId)
    (senderKey : Bytes) (authenticationPayload : Message) (baseFee : U128) :
    Option (TxContext crypto) := do
  let envelope ← (intent.decodeEnvelope crypto).toOption
  let toAddress ← envelope.toAddress
  let invokeRequest ← envelope.toInvokeRequests.head?
  let payloadBytes ← EthIntentPayload.codec.encode intent
  fromPayload (.custom payloadBytes) senderType {
    txHash := crypto.keccak256 payloadBytes
    gasLimit := envelope.gasLimit
    nonce := envelope.nonce
    chainId := envelope.chainId
    effectiveGasPrice := calculateEffectiveGasPrice envelope baseFee
    invokeRequest
    funds := []
    senderAccount
    recipientAccount := none
    senderKey
    authenticationPayload
    senderEthAddress := none
    recipientEthAddress := some toAddress }

/-- The ways to get a context. -/
inductive Obtained : TxContext crypto → Prop
  | decoded {bytes : Bytes} {context : TxContext crypto}
      (h : decode crypto bytes = .ok context) : Obtained context
  | built {envelope : TxEnvelope crypto} {baseFee : U128} {context : TxContext crypto}
      (h : new envelope baseFee = some context) : Obtained context
  | withPayload {payload : TxPayload crypto} {senderType : UInt16} {info : TxContextMeta}
      {context : TxContext crypto} (h : fromPayload payload senderType info = some context) :
      Obtained context
  | intended {senderType : UInt16} {intent : EthIntentPayload} {senderAccount : AccountId}
      {senderKey : Bytes} {authenticationPayload : Message} {baseFee : U128}
      {context : TxContext crypto}
      (h : fromEthIntent crypto senderType intent senderAccount senderKey authenticationPayload
        baseFee = some context) : Obtained context

/-! ### What the constructors agree on -/

/-- The sender and the recipient are told apart by what the wire format keeps. -/
structure WellFormed (context : TxContext crypto) : Prop where
  key : context.senderKey.length ≤ maxSenderKeyLen
  sender :
    if context.senderType = SenderType.eoaSecp256k1 then
      ∃ address, context.senderEthAddress = some address ∧
        context.senderResolution = .eoaAddress address
    else ∃ account, context.senderResolution = .account account
  recipient :
    match context.recipientResolution with
    | .account _ => True
    | .eoaAddress address => context.recipientEthAddress = some address
    | .none => context.recipientEthAddress = none

variable {context : TxContext crypto}

theorem wellFormed_of_new {envelope : TxEnvelope crypto} {baseFee : U128}
    (h : new envelope baseFee = some context) : context.WellFormed := by
  unfold new at h
  obtain ⟨toAddress, -, h⟩ := Option.bind_eq_some_iff.mp h
  obtain ⟨request, -, h⟩ := Option.bind_eq_some_iff.mp h
  obtain ⟨payload, -, h⟩ := Option.bind_eq_some_iff.mp h
  cases h
  refine ⟨?_, ?_, rfl⟩
  · simp [envelope.sender.length_eq, maxSenderKeyLen]
  · exact ⟨_, rfl, rfl⟩

theorem wellFormed_of_fromPayload {payload : TxPayload crypto} {senderType : UInt16}
    {info : TxContextMeta} (h : fromPayload payload senderType info = some context) :
    context.WellFormed := by
  unfold fromPayload at h
  obtain ⟨resolution, hresolution, h⟩ := Option.bind_eq_some_iff.mp h
  obtain ⟨key, hkey, h⟩ := Option.bind_eq_some_iff.mp h
  cases h
  refine ⟨?_, ?_, ?_⟩
  · exact SenderKey.length_le_of_new hkey
  · dsimp only
    unfold TxContextMeta.senderResolution at hresolution
    split at hresolution
    · rename_i htype
      obtain ⟨address, haddress, rfl⟩ := Option.map_eq_some_iff.mp hresolution
      rw [if_pos htype]
      exact ⟨address, haddress, rfl⟩
    · rename_i htype
      cases hresolution
      rw [if_neg htype]
      exact ⟨_, rfl⟩
  · dsimp only [TxContextMeta.recipientResolution]
    cases info.recipientAccount <;> cases info.recipientEthAddress <;> trivial

theorem wellFormed_of_ofWire {wire : TxContextWireV1} (h : ofWire crypto wire = .ok context) :
    context.WellFormed := by
  unfold ofWire at h
  split at h
  · cases h
  rename_i hkey
  cases hp : decodePayload crypto wire with
  | error e => rw [hp] at h; cases h
  | ok payload =>
    cases hs : wireSenderResolution wire with
    | error e => rw [hp, hs] at h; cases h
    | ok resolution =>
      rw [hp, hs] at h
      cases h
      refine ⟨Nat.le_of_not_lt hkey, ?_, ?_⟩
      · dsimp only
        unfold wireSenderResolution at hs
        split at hs
        · rename_i htype
          rw [if_pos htype]
          split at hs
          · cases hs
          · rename_i address haddress
            cases hs
            exact ⟨address, haddress, rfl⟩
        · rename_i htype
          cases hs
          rw [if_neg htype]
          exact ⟨_, rfl⟩
      · dsimp only [wireRecipientResolution]
        cases wire.recipientAccount <;> cases wire.recipientEthAddress <;> trivial

theorem Obtained.wellFormed (h : Obtained context) : context.WellFormed := by
  cases h with
  | decoded h =>
    rcases decode_ok h with ⟨-, wire, -, hwire⟩ | ⟨-, envelope, -, hnew⟩
    · exact wellFormed_of_ofWire hwire
    · exact wellFormed_of_new hnew
  | built h => exact wellFormed_of_new h
  | withPayload h => exact wellFormed_of_fromPayload h
  | intended h =>
    unfold fromEthIntent at h
    obtain ⟨envelope, -, h⟩ := Option.bind_eq_some_iff.mp h
    obtain ⟨toAddress, -, h⟩ := Option.bind_eq_some_iff.mp h
    obtain ⟨request, -, h⟩ := Option.bind_eq_some_iff.mp h
    obtain ⟨bytes, -, h⟩ := Option.bind_eq_some_iff.mp h
    exact wellFormed_of_fromPayload h

/-! ### Round trips -/

variable (rlp : RlpEncoder crypto)

/-- The encoding is decoded to a context that executes the same. -/
def RoundTrips (context : TxContext crypto) : Prop :=
  ∃ bytes decoded, context.encode rlp = .ok bytes ∧ decode crypto bytes = .ok decoded ∧
    context.SameExecution decoded

/-- The lengths in the wire format of a context with other payload fit in four bytes. -/
structure FitsWire (context : TxContext crypto) (payload : Bytes) : Prop where
  payload : payload.length < 256 ^ 4
  humanName : (Codec.utf8 context.invokeRequest.humanName).length < 256 ^ 4
  message : context.invokeRequest.message.length < 256 ^ 4
  funds : context.funds.length < 256 ^ 4
  authenticationPayload : context.authenticationPayload.length < 256 ^ 4

/-- An envelope names a recipient, and says all that the context executes; the hash is that of the
encoding.  Or the lengths of other fields can be encoded. -/
def EncodesWhole (context : TxContext crypto) : Prop :=
  match context.payload with
  | .eoa envelope =>
    ∃ address, envelope.toAddress = some address ∧
      context.Executes (envelope.rehashed rlp) address
  | .custom bytes => context.FitsWire bytes

theorem decode_encode_envelope (envelope : TxEnvelope crypto) :
    decode crypto (envelope.encode rlp) =
      match new (envelope.rehashed rlp) 0 with
      | some context => .ok context
      | none => .error errRecipientRequired := by
  unfold decode
  rw [envelope.encode_not_isWireEncoded rlp, envelope.decode_encode_rehashed rlp]
  rfl

theorem roundTrips_eoa_iff {envelope : TxEnvelope crypto} (h : context.payload = .eoa envelope) :
    context.RoundTrips rlp ↔ ∃ address, envelope.toAddress = some address ∧
      context.Executes (envelope.rehashed rlp) address := by
  rw [← (envelope.sameTx_rehashed rlp).toAddress]
  refine Iff.trans ?_ (builtFrom_iff : context.BuiltFrom (envelope.rehashed rlp) 0 ↔ _)
  have hdecode := decode_encode_envelope rlp envelope
  constructor
  · rintro ⟨bytes, decoded, hencode, hdecoded, hsame⟩
    cases (encode_eoa rlp h).symm.trans hencode
    rw [hdecode] at hdecoded
    cases hnew : new (envelope.rehashed rlp) 0 with
    | none => rw [hnew] at hdecoded; cases hdecoded
    | some built =>
      rw [hnew] at hdecoded
      cases hdecoded
      exact ⟨_, hnew, hsame⟩
  · rintro ⟨built, hnew, hsame⟩
    rw [hnew] at hdecode
    exact ⟨_, built, encode_eoa rlp h, hdecode, hsame⟩

theorem encode_custom {bytes : Bytes} (h : context.payload = .custom bytes) :
    context.encode rlp =
      match TxContextWireV1.codec.encode (context.toWire bytes) with
      | some encoded => .ok (txContextWireMagic ++ encoded)
      | none => .error errTxDecode := by
  unfold encode
  rewrite [h]
  rfl

theorem encodes_accountId (id : AccountId) : (Encodable.codec : Codec AccountId).Encodes id :=
  ⟨_, rfl⟩

theorem encodes_optionAccountId (id : Option AccountId) :
    (Encodable.codec : Codec (Option AccountId)).Encodes id :=
  (Codec.encodes_option _ id).mpr fun _ _ => encodes_accountId _

theorem encodes_invokeRequest (request : InvokeRequest) :
    (Encodable.codec : Codec InvokeRequest).Encodes request ↔
      (Codec.utf8 request.humanName).length < 256 ^ 4 ∧ request.message.length < 256 ^ 4 := by
  refine (Codec.encodes_iso _ _ _ _ request).trans ?_
  simp

theorem encodes_toWire_iff (hkey : context.senderKey.length ≤ 64) (bytes : Bytes) :
    TxContextWireV1.codec.Encodes (context.toWire bytes) ↔ context.FitsWire bytes := by
  unfold TxContextWireV1.codec TxPayloadWire.codec fungibleAssetCodec
  simp only [Codec.encodes_iso, Codec.encodes_pair, Codec.encodes_option, Codec.encodes_list,
    Codec.encodes_u16, Codec.encodes_fixed, Codec.encodes_u64, Codec.encodes_u128,
    Codec.encodes_bytes, Codec.encodes_inr, encodes_accountId, encodes_optionAccountId,
    encodes_invokeRequest, toWire, true_and, and_true, implies_true]
  constructor
  · rintro ⟨hpayload, ⟨hname, hmessage⟩, hfunds, -, hauth⟩
    exact ⟨hpayload, hname, hmessage, hfunds, hauth⟩
  · rintro ⟨hpayload, hname, hmessage, hfunds, hauth⟩
    exact ⟨hpayload, ⟨hname, hmessage⟩, hfunds, hkey.trans_lt (by decide), hauth⟩

theorem WellFormed.wireSenderResolution (h : context.WellFormed) (bytes : Bytes) :
    wireSenderResolution (context.toWire bytes) = .ok context.senderResolution := by
  have hsender := h.sender
  unfold TxContext.wireSenderResolution toWire
  dsimp only
  split at hsender
  · rename_i htype
    obtain ⟨address, haddress, hresolution⟩ := hsender
    rw [if_pos htype, haddress, hresolution]
  · rename_i htype
    obtain ⟨account, hresolution⟩ := hsender
    rw [if_neg htype, TxContext.sender, hresolution]

theorem WellFormed.wireRecipientResolution (h : context.WellFormed) (bytes : Bytes) :
    wireRecipientResolution (context.toWire bytes) = context.recipientResolution := by
  have hrecipient := h.recipient
  unfold TxContext.wireRecipientResolution toWire wireRecipientAccount
  cases hresolution : context.recipientResolution with
  | account account => rfl
  | eoaAddress address =>
    rw [hresolution] at hrecipient
    dsimp only at hrecipient ⊢
    rw [hrecipient]
  | none =>
    rw [hresolution] at hrecipient
    dsimp only at hrecipient ⊢
    rw [hrecipient]

theorem WellFormed.decode_encoded (h : context.WellFormed) {bytes encoded : Bytes}
    (hencode : TxContextWireV1.codec.encode (context.toWire bytes) = some encoded) :
    ∃ decoded, decode crypto (txContextWireMagic ++ encoded) = .ok decoded ∧
      context.SameExecution decoded := by
  have hwire : isWireEncoded (txContextWireMagic ++ encoded) = true := by
    simp [isWireEncoded]
  have hmessage : wireMessage (txContextWireMagic ++ encoded) = some (context.toWire bytes) := by
    unfold wireMessage
    rw [List.drop_left]
    exact TxContextWireV1.codec.fromSlice_encode hencode
  have hkey : ¬ (context.toWire bytes).senderKey.length > maxSenderKeyLen := Nat.not_lt.mpr h.key
  unfold decode
  rw [if_pos hwire, hmessage]
  dsimp only
  unfold ofWire
  rw [if_neg hkey, h.wireSenderResolution bytes]
  exact ⟨_, rfl, rfl, rfl, rfl, rfl, rfl, (h.wireRecipientResolution bytes).symm, rfl, rfl⟩

theorem WellFormed.roundTrips_custom_iff (h : context.WellFormed) {bytes : Bytes}
    (hpayload : context.payload = .custom bytes) :
    context.RoundTrips rlp ↔ context.FitsWire bytes := by
  have hencode := encode_custom rlp hpayload
  rw [← encodes_toWire_iff h.key]
  constructor
  · rintro ⟨message, decoded, hmessage, -, -⟩
    rw [hmessage] at hencode
    split at hencode
    · rename_i encoded hencoded
      exact ⟨encoded, hencoded⟩
    · cases hencode
  · rintro ⟨encoded, hencoded⟩
    obtain ⟨decoded, hdecode, hsame⟩ := h.decode_encoded hencoded
    rw [hencoded] at hencode
    exact ⟨_, decoded, hencode, hdecode, hsame⟩

/-- However a context was obtained: encoding it and decoding the bytes gives a context that executes
the same if and only if an envelope in it says all that it executes, or it has another payload
whose lengths can be encoded. -/
theorem roundTrips_iff (rlp : RlpEncoder crypto) {context : TxContext crypto}
    (h : Obtained context) : context.RoundTrips rlp ↔ context.EncodesWhole rlp := by
  unfold EncodesWhole
  cases hpayload : context.payload with
  | eoa envelope => exact roundTrips_eoa_iff rlp hpayload
  | custom bytes => exact h.wellFormed.roundTrips_custom_iff rlp hpayload

/-! ### Contexts of one owner -/

/-- The nonce of the context that is decoded from some bytes, and what it is encoded to. -/
def reencoded (bytes : Bytes) : Option (UInt64 × Option Message) :=
  (decode sampleCrypto bytes).toOption.map fun context =>
    (context.nonce, (context.encode ownerRlp).toOption)

theorem reencoded_some {bytes encoded : Bytes} {nonce : UInt64}
    (h : reencoded bytes = some (nonce, some encoded)) :
    ∃ context, decode sampleCrypto bytes = .ok context ∧ context.nonce = nonce ∧
      context.encode ownerRlp = .ok encoded := by
  unfold reencoded at h
  cases hdecode : decode sampleCrypto bytes with
  | error e => rw [hdecode] at h; cases h
  | ok context =>
    rw [hdecode] at h
    obtain ⟨rfl, hencode⟩ := Prod.mk.inj (Option.some.inj h)
    refine ⟨context, rfl, rfl, ?_⟩
    cases hencoded : context.encode ownerRlp with
    | error e => rw [hencoded] at hencode; cases hencode
    | ok message =>
      rw [hencoded] at hencode
      cases hencode
      rfl

theorem reencoded_envelope :
    reencoded KnownTx.first.bytes = some (0, some KnownTx.first.bytes) := by
  decide +kernel

theorem roundTrips_envelope :
    ∃ context, decode sampleCrypto KnownTx.first.bytes = .ok context ∧ context.RoundTrips ownerRlp ∧
      context.EncodesWhole ownerRlp := by
  obtain ⟨context, hdecode, -, hencode⟩ := reencoded_some reencoded_envelope
  have htrips : context.RoundTrips ownerRlp :=
    ⟨_, context, hencode, hdecode, rfl, rfl, rfl, rfl, rfl, rfl, rfl, rfl⟩
  exact ⟨context, hdecode, htrips, (roundTrips_iff ownerRlp (.decoded hdecode)).mp htrips⟩

/-- The envelope with nonce zero, in a message that says nonce five. -/
def strayWire : TxContextWireV1 :=
  { impostorWire with payload := .eoa KnownTx.first.bytes, nonce := 5 }

theorem reencoded_strayWire :
    reencoded (wireBytes strayWire) = some (5, some KnownTx.first.bytes) := by
  decide +kernel

/-- The message is decoded to a context with nonce five, whose encoding has nonce zero. -/
theorem strayWire_not_roundTrips :
    ∃ context, decode sampleCrypto (wireBytes strayWire) = .ok context ∧ context.nonce = 5 ∧
      ¬ context.RoundTrips ownerRlp := by
  obtain ⟨context, hdecode, hnonce, hencode⟩ := reencoded_some reencoded_strayWire
  refine ⟨context, hdecode, hnonce, ?_⟩
  rintro ⟨bytes, decoded, hencode', hdecoded, hsame⟩
  cases hencode.symm.trans hencode'
  obtain ⟨plain, hplain, hzero, -⟩ := reencoded_some reencoded_envelope
  cases hplain.symm.trans hdecoded
  have hsame : (5 : UInt64) = 0 := hnonce.symm.trans (hsame.nonce.trans hzero)
  exact absurd hsame (by decide)

end TxContext

end Eth

end Evolve
