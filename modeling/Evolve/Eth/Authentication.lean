import Mathlib
import Evolve.Eth.Eoa

/-! What the authentication of a transaction says about the bytes it was decoded from: whether they
contain an envelope that the owner of the account signed for what is executed. -/

namespace Evolve

open Machine Borsh Effects

namespace Eth

open EthEoaAccount

variable {crypto : Crypto}

/-! ### Signed bytes -/

variable (crypto) in
/-- The bytes contain the envelope, by itself or in a wire message. -/
inductive ContainsEnvelope (bytes : Bytes) (envelope : TxEnvelope crypto) : Prop
  | plain (plain : TxContext.isWireEncoded bytes = false)
      (decodes : TxEnvelope.decode crypto bytes = .ok envelope)
  | wire {message : TxContextWireV1} {raw : Bytes} (wire : TxContext.isWireEncoded bytes = true)
      (decodesWire : TxContext.wireMessage bytes = some message)
      (payload : message.payload = .eoa raw)
      (decodes : TxEnvelope.decode crypto raw = .ok envelope)

/-- The envelope carries what is executed: the nonce, the recipient and the request.  It sends no
funds along. -/
structure TxEnvelope.Carries (envelope : TxEnvelope crypto) (context : TxContext crypto) :
    Prop where
  nonce : context.nonce = envelope.nonce
  recipient : ∃ address, envelope.toAddress = some address ∧
    context.recipientResolution = .eoaAddress address
  request : context.invokeRequest = invokeRequestFromInput envelope.input
  funds : context.funds = []

/-- The owner of the account has signed what is executed. -/
def SignedByOwner (bytes : Bytes) (context : TxContext crypto) (account : AccountId) (w : World) :
    Prop :=
  ∃ envelope, ContainsEnvelope crypto bytes envelope ∧ envelope.sender = addressOf account w ∧
    envelope.Carries context

/-- The unsigned fields of a wire message that decide what is executed repeat what the envelope
says. -/
structure TxContextWireV1.RepeatsCall (wire : TxContextWireV1) (envelope : TxEnvelope crypto) :
    Prop where
  nonce : wire.nonce = envelope.nonce
  recipient : ∃ address, envelope.toAddress = some address ∧ wire.recipientAccount = none ∧
    wire.recipientEthAddress = some address
  request : wire.invokeRequest = invokeRequestFromInput envelope.input
  funds : wire.funds = []

variable (crypto) in
/-- The bytes are an envelope, or a wire message that holds an envelope and repeats it. -/
def WrapsEnvelope (bytes : Bytes) : Prop :=
  TxContext.isWireEncoded bytes = true → ∃ wire raw envelope,
    TxContext.wireMessage bytes = some wire ∧ wire.payload = .eoa raw ∧
    TxEnvelope.decode crypto raw = .ok envelope ∧ wire.RepeatsCall envelope

theorem TxContext.TakenFrom.carries_iff {context : TxContext crypto} {wire : TxContextWireV1}
    (taken : context.TakenFrom wire) (envelope : TxEnvelope crypto) :
    envelope.Carries context ↔ wire.RepeatsCall envelope := by
  constructor
  · rintro ⟨hnonce, ⟨address, hto, hrecipient⟩, hrequest, hfunds⟩
    obtain ⟨haccount, haddress⟩ :=
      TxContext.wireRecipientResolution_eoaAddress.mp (taken.recipient.symm.trans hrecipient)
    exact ⟨taken.nonce.symm.trans hnonce, ⟨address, hto, haccount, haddress⟩,
      taken.request.symm.trans hrequest, taken.funds.symm.trans hfunds⟩
  · rintro ⟨hnonce, ⟨address, hto, haccount, haddress⟩, hrequest, hfunds⟩
    have hrecipient := TxContext.wireRecipientResolution_eoaAddress.mpr ⟨haccount, haddress⟩
    exact ⟨taken.nonce.trans hnonce, ⟨address, hto, taken.recipient.trans hrecipient⟩,
      taken.request.trans hrequest, taken.funds.trans hfunds⟩

theorem TxContext.decodePayload_raw {wire : TxContextWireV1} {payload : TxPayload crypto}
    {raw : Bytes} {envelope : TxEnvelope crypto} (h : decodePayload crypto wire = .ok payload)
    (hraw : wire.payload = .eoa raw) (hdecode : TxEnvelope.decode crypto raw = .ok envelope) :
    payload = .eoa envelope := by
  unfold decodePayload at h
  rw [hraw] at h
  dsimp only at h
  rw [hdecode] at h
  dsimp only [bind, Except.bind] at h
  split at h
  · cases h
  · split at h
    · cases h
    · cases h
      rfl

/-! ### Authenticated bytes -/

section

variable (host : Host) (fuel : Nat) (rlp : RlpEncoder crypto) {Block : Type}
  (stf : Stf (TxContext crypto) Block) (block : BlockContext)

/-- For every byte string that is decoded to a transaction and validated by an externally owned
account: the bytes contain an envelope that the owner of the account signed and that carries what is
executed, if and only if they are an envelope, or a wire message that holds an envelope and whose
unsigned nonce, recipient, request and funds repeat it. -/
theorem signedByOwner_iff {bytes : Bytes} {context : TxContext crypto} {account : AccountId}
    {w w' : World} (hdecode : TxContext.decode crypto bytes = .ok context)
    (hresolves : Resolves (withEoaCode crypto host) fuel (Stf.validationFrame context block) context
      account w)
    (hregistered : Registered account w)
    (hvalid : (authenticating rlp stf).validateTxPhase (withEoaCode crypto host) fuel context block
      w = .done (.ok (), w')) :
    SignedByOwner bytes context account w ↔ WrapsEnvelope crypto bytes := by
  -- The signature is checked for the owner whenever the context holds an envelope that carries it.
  have howner : ∀ envelope, context.payload = .eoa envelope → envelope.Carries context →
      envelope.sender = addressOf account w := by
    intro envelope hpayload hcarries
    obtain ⟨address, hto, -⟩ := hcarries.recipient
    exact (validateTx_verifies host fuel _ rlp hresolves hregistered hvalid hpayload
      (by simp [hto])).1
  rcases TxContext.decode_ok hdecode with ⟨hwire, wire, hmessage, hcontext⟩ |
    ⟨hplain, envelope, henvelope, hnew⟩
  · have taken := TxContext.ofWire_ok hcontext
    constructor
    · rintro ⟨envelope, hcontains, -, hcarries⟩ -
      cases hcontains with
      | plain hplain => exact absurd hwire (by simp [hplain])
      | wire _ hmessage' hraw hdecodes =>
        cases hmessage.symm.trans hmessage'
        have hrepeats := (taken.carries_iff envelope).mp hcarries
        exact ⟨wire, _, envelope, hmessage, hraw, hdecodes, hrepeats⟩
    · intro hwraps
      obtain ⟨wire', raw, envelope, hmessage', hraw, hdecodes, hrepeats⟩ := hwraps hwire
      cases hmessage.symm.trans hmessage'
      have hcarries := (taken.carries_iff envelope).mpr hrepeats
      have hpayload := TxContext.decodePayload_raw taken.payload hraw hdecodes
      exact ⟨envelope, .wire hwire hmessage hraw hdecodes, howner envelope hpayload hcarries,
        hcarries⟩
  · refine iff_of_true ?_ fun hwire => absurd hwire (by simp [hplain])
    cases hto : envelope.toAddress with
    | none => cases (TxContext.new_none hto).symm.trans hnew
    | some address =>
      obtain ⟨built, hbuilt, hpayload, hexec⟩ := TxContext.new_some 0 hto
      cases hnew.symm.trans hbuilt
      have hcarries : envelope.Carries context :=
        ⟨hexec.nonce, ⟨address, hto, hexec.recipient⟩, hexec.request, hexec.funds⟩
      exact ⟨envelope, .plain hplain henvelope, howner envelope hpayload hcarries, hcarries⟩

end

/-! ### The account of the signer -/

theorem sampleCrypto_legacy (tx : SignedLegacyTx sampleCrypto) :
    ∃ known ∈ knownTxs, tx.inner = ⟨known.tx, known.signature⟩ := by
  obtain ⟨⟨inner, signature⟩, sender, hash, recovered⟩ := tx
  unfold recoverSenderFromSignatureHash sampleCrypto at recovered
  dsimp only at recovered
  split_ifs at recovered with hsigned
  obtain ⟨known, hmem, hhash, rfl⟩ := hsigned
  refine ⟨known, hmem, ?_⟩
  cases hfind : knownTxs.find? (·.tx = inner) with
  | none =>
    rw [hfind] at hhash
    exact absurd hhash ((by decide +kernel : ∀ known ∈ knownTxs, known.signatureHash ≠ word 0)
      known hmem)
  | some known' =>
    rw [hfind] at hhash
    have hsame : ∀ known ∈ knownTxs, ∀ known' ∈ knownTxs,
        known.signatureHash = known'.signatureHash → known.tx = known'.tx := by decide +kernel
    have htx : known'.tx = inner := of_decide_eq_true (List.find?_some hfind :)
    rw [hsame known hmem known' (List.mem_of_find?_eq_some hfind) hhash, htx]

theorem sampleCrypto_eip1559 (tx : SignedEip1559Tx sampleCrypto) : False := by
  obtain ⟨inner, sender, hash, recovered⟩ := tx
  unfold recoverSenderFromSignatureHash sampleCrypto at recovered
  dsimp only at recovered
  split_ifs at recovered with hsigned
  obtain ⟨known, hmem, hhash, -⟩ := hsigned
  exact (by decide +kernel : ∀ known ∈ knownTxs, known.signatureHash ≠ word 0) known hmem hhash

def ownerRlp : RlpEncoder sampleCrypto where
  legacy signed := ((knownTxs.find? (·.tx = signed.tx)).map KnownTx.bytes).getD []
  eip1559 _ := []
  legacy_list tx := by
    obtain ⟨known, hmem, hinner⟩ := sampleCrypto_legacy tx
    rw [hinner]
    simp only [knownTxs, List.mem_cons, List.not_mem_nil, or_false] at hmem
    rcases hmem with rfl | rfl | rfl <;> exact ⟨_, _, rfl, by decide +kernel⟩
  decode_legacy tx := by
    obtain ⟨known, hmem, hinner⟩ := sampleCrypto_legacy tx
    rw [hinner]
    simp only [knownTxs, List.mem_cons, List.not_mem_nil, or_false] at hmem
    rcases hmem with rfl | rfl | rfl <;> decide +kernel
  decode_eip1559 tx := (sampleCrypto_eip1559 tx).elim

def ownerAccount : AccountId := deriveEthEoaAccountId sampleCrypto signerAddress

/-- The account of the owner, and an account that accepts every call. -/
def ownerStore : ReadonlyKV := fun key =>
  if key = accountCodeIdentifierKey ownerAccount then (Message.new ethEoaCodeId).map some
  else if key = Invoker.accountStorageKey ownerAccount [1] then (Message.new signerAddress).map some
  else if key = accountCodeIdentifierKey (.fromU64 12) then (Message.new "idle").map some
  else .ok none

def ownerWorld : World := ⟨.new ownerStore, .infinite, []⟩

def ownerHost : Host := withEoaCode sampleCrypto sampleHost

def ownerHooks (Block : Type) : Stf (TxContext sampleCrypto) Block where
  beginBlock _ _ := pure ()
  endBlock _ := pure ()
  validateTx _ _ := pure ()
  afterTxExecuted _ _ _ _ := pure ()
  storageGasConfig := ⟨10, 10, 10⟩

def ownerStf (Block : Type) : Stf (TxContext sampleCrypto) Block :=
  authenticating ownerRlp (ownerHooks Block)

theorem registered_ownerAccount : Registered ownerAccount ownerWorld := by
  unfold Registered
  decide +kernel

/-- The bytes are decoded to a transaction of the owner, and it is validated. -/
def ownerValidates (bytes : Bytes) : Bool :=
  (TxContext.decode sampleCrypto bytes).toOption.any fun context => decide
    (Exec.Ends (context.resolveSenderAccount.run
        (environment ownerHost 9 (Stf.validationFrame context ⟨1, 0⟩)))
      (fun r _ => r = .ok ownerAccount) ownerWorld ∧
    Exec.Ends ((ownerStf Unit).validateTxPhase ownerHost 9 context ⟨1, 0⟩)
      (fun r _ => r = .ok ()) ownerWorld)

theorem ownerValidates_spec {bytes : Bytes} (h : ownerValidates bytes = true) :
    ∃ context w', TxContext.decode sampleCrypto bytes = .ok context ∧
      Resolves ownerHost 9 (Stf.validationFrame context ⟨1, 0⟩) context ownerAccount ownerWorld ∧
      (ownerStf Unit).validateTxPhase ownerHost 9 context ⟨1, 0⟩ ownerWorld =
        .done (.ok (), w') := by
  unfold ownerValidates at h
  cases hdecode : TxContext.decode sampleCrypto bytes with
  | error e => rw [hdecode] at h; cases h
  | ok context =>
    rw [hdecode] at h
    obtain ⟨hresolves, hvalid⟩ := of_decide_eq_true h
    obtain ⟨_, w₁, hresolves, rfl⟩ := hresolves.exists
    obtain ⟨_, w', hvalid, rfl⟩ := hvalid.exists
    exact ⟨context, w', rfl, ⟨w₁, hresolves⟩, hvalid⟩

theorem ownerValidates_envelope : ownerValidates KnownTx.first.bytes = true := by decide +kernel

theorem signedByOwner_envelope :
    ∃ context w', TxContext.decode sampleCrypto KnownTx.first.bytes = .ok context ∧
      (ownerStf Unit).validateTxPhase ownerHost 9 context ⟨1, 0⟩ ownerWorld =
        .done (.ok (), w') ∧ SignedByOwner KnownTx.first.bytes context ownerAccount ownerWorld := by
  obtain ⟨context, w', hdecode, hresolves, hvalid⟩ := ownerValidates_spec ownerValidates_envelope
  refine ⟨context, w', hdecode, hvalid, ?_⟩
  refine (signedByOwner_iff sampleHost 9 ownerRlp (ownerHooks Unit) ⟨1, 0⟩ hdecode hresolves
    registered_ownerAccount hvalid).mpr ?_
  rintro ⟨⟩

/-! ### A transaction that nobody signed -/

/-- A message that names the owner as its sender and holds no envelope. -/
def impostorWire : TxContextWireV1 where
  senderType := SenderType.eoaSecp256k1
  payload := .custom []
  txHash := FixedBytes.repeatByte 32 9
  gasLimit := 90000
  nonce := 0
  chainId := some 1
  effectiveGasPrice := 0
  invokeRequest := Invoker.initRequest []
  funds := []
  senderAccount := .fromU64 0
  recipientAccount := some (.fromU64 12)
  senderKey := []
  authenticationPayload := []
  senderEthAddress := some signerAddress
  recipientEthAddress := none

theorem ownerValidates_impostor : ownerValidates (wireBytes impostorWire) = true := by
  decide +kernel

theorem impostorWire_custom :
    TxContext.isWireEncoded (wireBytes impostorWire) = true ∧
      (TxContext.wireMessage (wireBytes impostorWire)).all (fun wire =>
        match wire.payload with
        | .eoa _ => false
        | .custom _ => true) = true := by
  decide +kernel

/-- The account of the owner authenticates the message, which contains no envelope. -/
theorem impostor_not_signedByOwner :
    ∃ context w', TxContext.decode sampleCrypto (wireBytes impostorWire) = .ok context ∧
      Resolves ownerHost 9 (Stf.validationFrame context ⟨1, 0⟩) context ownerAccount ownerWorld ∧
      Registered ownerAccount ownerWorld ∧
      (ownerStf Unit).validateTxPhase ownerHost 9 context ⟨1, 0⟩ ownerWorld =
        .done (.ok (), w') ∧
      ¬ SignedByOwner (wireBytes impostorWire) context ownerAccount ownerWorld := by
  obtain ⟨context, w', hdecode, hresolves, hvalid⟩ := ownerValidates_spec ownerValidates_impostor
  refine ⟨context, w', hdecode, hresolves, registered_ownerAccount, hvalid, ?_⟩
  obtain ⟨hwire, hcustom⟩ := impostorWire_custom
  rintro ⟨envelope, hcontains, -⟩
  cases hcontains with
  | plain hplain => exact absurd hwire (by simp [hplain])
  | wire _ hmessage hraw _ =>
    rw [hmessage, Option.all_some, hraw] at hcustom
    cases hcustom

end Eth

end Evolve
