import Mathlib
import Evolve.Eth.TxContext
import Evolve.Sdk.Token

/-! Externally owned accounts: the payload that a transaction is authenticated with, the code of the
accounts that check it, and the validator that asks them.  A call of the code fails and changes
nothing, or it is an authentication that raises the nonce by one. -/

namespace Evolve

open Machine Borsh Effects

namespace Eth

def errNonceTooLow : ErrorCode := defineError 0x18
def errNonceTooHigh : ErrorCode := defineError 0x19
def errNonceOverflow : ErrorCode := defineError 0x1B
def errNotEoa : ErrorCode := defineError 0x41

variable {crypto : Crypto}

/-! ### Encoding transactions -/

/-- The RLP encoders of the library whose decoders `crypto` has.  What they write for a transaction
whose sender can be recovered is decoded to it with nothing left over, and the encoding of a list
starts with `0xc0` or more. -/
structure RlpEncoder (crypto : Crypto) where
  legacy : Signed TxLegacy → Bytes
  eip1559 : Signed TxEip1559 → Bytes
  legacy_list : ∀ tx : SignedLegacyTx crypto, ∃ b bytes, legacy tx.inner = b :: bytes ∧ b ≥ 0xc0
  decode_legacy : ∀ tx : SignedLegacyTx crypto,
    crypto.rlpDecodeLegacy (legacy tx.inner) = some (tx.inner, [])
  decode_eip1559 : ∀ tx : SignedEip1559Tx crypto,
    crypto.rlpDecodeEip1559 (eip1559 tx.inner) = some (tx.inner, [])

def TxEnvelope.encode (rlp : RlpEncoder crypto) : TxEnvelope crypto → Bytes
  | .legacy tx => rlp.legacy tx.inner
  | .eip1559 tx => TxType.eip1559 :: rlp.eip1559 tx.inner

/-- The same signed transaction.  The hashes may differ, since they are those of the bytes that the
envelopes were decoded from. -/
structure TxEnvelope.SameTx (envelope envelope' : TxEnvelope crypto) : Prop where
  sender : envelope'.sender = envelope.sender
  nonce : envelope'.nonce = envelope.nonce
  toAddress : envelope'.toAddress = envelope.toAddress
  input : envelope'.input = envelope.input

theorem SignedTx.fromAlloyWithBytes_inner {Tx : Type} {signatureHash : Tx → B256}
    (tx : SignedTx crypto signatureHash) (bytes : Bytes) :
    SignedTx.fromAlloyWithBytes crypto signatureHash tx.inner bytes =
      .ok ⟨tx.inner, tx.sender, crypto.keccak256 bytes, tx.recovered⟩ := by
  unfold fromAlloyWithBytes
  split
  · rename_i sender h
    cases h.symm.trans tx.recovered
    rfl
  · rename_i e h
    cases h.symm.trans tx.recovered

namespace TxEnvelope

variable (rlp : RlpEncoder crypto)

/-- The envelope with the hash of its encoding. -/
def rehashed (envelope : TxEnvelope crypto) : TxEnvelope crypto :=
  let hash := crypto.keccak256 (envelope.encode rlp)
  match envelope with
  | .legacy tx => .legacy { tx with hash }
  | .eip1559 tx => .eip1559 { tx with hash }

theorem decode_encode_rehashed (envelope : TxEnvelope crypto) :
    decode crypto (envelope.encode rlp) = .ok (envelope.rehashed rlp) := by
  cases envelope with
  | legacy tx =>
    obtain ⟨b, bytes, hbytes, hlist⟩ := rlp.legacy_list tx
    have hdecode : crypto.rlpDecodeLegacy (b :: bytes) = some (tx.inner, []) := by
      rw [← hbytes]
      exact rlp.decode_legacy tx
    unfold decode decodeFrom rehashed encode
    simp only [hbytes, if_pos hlist, hdecode, SignedTx.fromAlloyWithBytes_inner, Except.map,
      List.length_nil, Nat.sub_zero, List.drop_length, List.take_length]
  | eip1559 tx =>
    have htype : ¬ TxType.eip1559 ≥ 0xc0 := by decide
    unfold decode decodeFrom rehashed encode
    simp only [if_neg htype, rlp.decode_eip1559 tx, SignedTx.fromAlloyWithBytes_inner, Except.map,
      List.length_nil, Nat.sub_zero, List.drop_length, List.take_length, if_true]

theorem sameTx_rehashed (envelope : TxEnvelope crypto) :
    envelope.SameTx (envelope.rehashed rlp) := by
  cases envelope with
  | legacy tx => exact ⟨rfl, rfl, rfl, rfl⟩
  | eip1559 tx => exact ⟨rfl, rfl, rfl, rfl⟩

theorem decode_encode (envelope : TxEnvelope crypto) :
    ∃ envelope', decode crypto (envelope.encode rlp) = .ok envelope' ∧
      envelope.SameTx envelope' :=
  ⟨_, envelope.decode_encode_rehashed rlp, envelope.sameTx_rehashed rlp⟩

theorem encode_not_isWireEncoded (envelope : TxEnvelope crypto) :
    TxContext.isWireEncoded (envelope.encode rlp) = false := by
  have hmagic : txContextWireMagic = [0x63, 0x74, 0x78, 0x31] := by decide
  cases envelope with
  | legacy tx =>
    obtain ⟨b, bytes, hbytes, hlist⟩ := rlp.legacy_list tx
    have hb : b ≠ 0x63 := by
      rintro rfl
      exact absurd hlist (by decide)
    simp [TxContext.isWireEncoded, encode, hbytes, hmagic, hb]
  | eip1559 tx => simp [TxContext.isWireEncoded, encode, hmagic, TxType.eip1559]

end TxEnvelope

variable {envelope : TxEnvelope crypto}

namespace TxContext

def wireRecipientAccount (context : TxContext crypto) : Option AccountId :=
  match context.recipientResolution with
  | .account account => some account
  | .eoaAddress _ => none
  | .none => none

/-- What a context without an envelope is encoded from. -/
def toWire (context : TxContext crypto) (bytes : Bytes) : TxContextWireV1 where
  senderType := context.senderType
  payload := .custom bytes
  txHash := context.txHash
  gasLimit := context.gasLimit
  nonce := context.nonce
  chainId := context.chainId
  effectiveGasPrice := context.effectiveGasPrice
  invokeRequest := context.invokeRequest
  funds := context.funds
  senderAccount := context.sender
  recipientAccount := context.wireRecipientAccount
  senderKey := context.senderKey
  authenticationPayload := context.authenticationPayload
  senderEthAddress := context.senderEthAddress
  recipientEthAddress := context.recipientEthAddress

/-- An envelope is encoded by itself, without the other fields. -/
def encode (rlp : RlpEncoder crypto) (context : TxContext crypto) : SdkResult Message :=
  match context.payload with
  | .eoa envelope => .ok (envelope.encode rlp)
  | .custom bytes =>
    match TxContextWireV1.codec.encode (context.toWire bytes) with
    | some encoded => .ok (txContextWireMagic ++ encoded)
    | none => .error errTxDecode

theorem encode_eoa (rlp : RlpEncoder crypto) {context : TxContext crypto}
    (h : context.payload = .eoa envelope) : context.encode rlp = .ok (envelope.encode rlp) := by
  unfold encode
  rw [h]

theorem decode_encode_some (rlp : RlpEncoder crypto) {address : Address}
    (h : envelope.toAddress = some address) :
    ∃ decoded, decode crypto (envelope.encode rlp) = .ok decoded ∧
      decoded.senderAddress = some envelope.sender ∧ decoded.nonce = envelope.nonce := by
  obtain ⟨envelope', hdecode, hsame⟩ := envelope.decode_encode rlp
  obtain ⟨decoded, hnew, -, hexec⟩ := new_some 0 (hsame.toAddress.trans h)
  refine ⟨decoded, ?_, ?_, hexec.nonce.trans hsame.nonce⟩
  · unfold decode
    rw [envelope.encode_not_isWireEncoded rlp, hdecode]
    dsimp only [bind, Except.bind]
    simp only [hnew]
    rfl
  · unfold senderAddress
    rw [hexec.sender, hsame.sender]

end TxContext

/-! ### Messages -/

namespace EthEoaAccount

structure InitializeMsg where
  ethAddress : Address

instance : InvokableMessage InitializeMsg where
  codec := (Encodable.codec : Codec Address).iso InitializeMsg.mk InitializeMsg.ethAddress
    fun _ => rfl
  functionIdentifier := 1954143245
  functionIdentifierName := "initialize"

structure AuthenticateMsg where
  tx : Message

instance : InvokableMessage AuthenticateMsg where
  codec := Codec.bytes.iso AuthenticateMsg.mk AuthenticateMsg.tx fun _ => rfl
  functionIdentifier := 2376687436
  functionIdentifierName := "authenticate"

structure GetNonceMsg where
structure GetEthAddressMsg where

instance : InvokableMessage GetNonceMsg where
  codec := Codec.unit.iso (fun _ => ⟨⟩) (fun _ => ()) fun _ => rfl
  functionIdentifier := 2779531122
  functionIdentifierName := "get_nonce"

instance : InvokableMessage GetEthAddressMsg where
  codec := Codec.unit.iso (fun _ => ⟨⟩) (fun _ => ()) fun _ => rfl
  functionIdentifier := 2531088901
  functionIdentifierName := "get_eth_address"

/-! ### The code -/

def nonce : Item UInt64 := ⟨0⟩
def ethAddress : Item Address := ⟨1⟩

def zeroAddress : Address := FixedBytes.repeatByte 20 0

def nextNonce (stored : Option UInt64) : SdkResult UInt64 :=
  match checkedAdd (stored.getD 0) 1 with
  | some next => .ok next
  | none => .error errNonceOverflow

def incrementNonce (env : Env) : Program Unit := do
  let _ ← nonce.update env () nextNonce

def authenticateCanonicalTx (env : Env) (tx : TxContext crypto) (expectedAddress : Address) :
    Program Unit :=
  match tx.senderAddress with
  | none => Prog.throw errSenderMismatch
  | some senderAddress =>
    if senderAddress ≠ expectedAddress then Prog.throw errSenderMismatch
    else do
      let stored ← (nonce.mayGet env ()).lift
      let currentNonce := stored.getD 0
      if tx.nonce < currentNonce then Prog.throw errNonceTooLow
      else if tx.nonce > currentNonce then Prog.throw errNonceTooHigh
      else incrementNonce env

def initializeAccount (msg : InitializeMsg) : Program Unit := do
  nonce.set () 0
  ethAddress.set () msg.ethAddress

def getNonce (env : Env) (_ : GetNonceMsg) : QueryProgram UInt64 := do
  let stored ← nonce.mayGet env ()
  pure (stored.getD 0)

def getEthAddress (env : Env) (_ : GetEthAddressMsg) : QueryProgram Address := do
  let stored ← ethAddress.mayGet env ()
  pure (stored.getD zeroAddress)

variable (crypto) in
/-- The check of a payload that is not a transaction. -/
def checkPayload (env : Env) (expectedAddress : Address) (tx : Message) : SdkResult Unit :=
  match (Message.get tx : SdkResult Address) with
  | .ok senderAddress =>
    if senderAddress ≠ expectedAddress then .error errSenderMismatch else .ok ()
  | .error _ =>
    match (Message.get tx : SdkResult AccountId) with
    | .ok senderId => if senderId ≠ env.whoami then .error errSenderMismatch else .ok ()
    | .error _ =>
      match TxContext.decode crypto tx with
      | .ok mempoolTx =>
        if mempoolTx.senderAddress ≠ some expectedAddress then .error errSenderMismatch else .ok ()
      -- any other payload is accepted without a check
      | .error _ => .ok ()

variable (crypto) in
def authenticate (env : Env) (msg : AuthenticateMsg) : Program Unit := do
  let stored ← (ethAddress.mayGet env ()).lift
  let expectedAddress := stored.getD zeroAddress
  match TxContext.decode crypto msg.tx with
  | .ok mempoolTx => authenticateCanonicalTx env mempoolTx expectedAddress
  | .error _ =>
    Prog.ofExcept (checkPayload crypto env expectedAddress msg.tx)
    incrementNonce env

def init (env : Env) (request : InvokeRequest) : Program InvokeResponse :=
  Token.call env request initializeAccount

variable (crypto) in
def execute (env : Env) (request : InvokeRequest) : Program InvokeResponse :=
  if request.function = InvokableMessage.functionIdentifier AuthenticateMsg then
    Token.call env request (authenticate crypto env)
  else Prog.throw errUnknownFunction

def query (env : Env) (request : InvokeRequest) : QueryProgram InvokeResponse :=
  if request.function = InvokableMessage.functionIdentifier GetNonceMsg then do
    let msg : GetNonceMsg ← Prog.ofExcept request.get
    let value ← getNonce env msg
    Prog.ofExcept (InvokeResponse.new value)
  else if request.function = InvokableMessage.functionIdentifier GetEthAddressMsg then do
    let msg : GetEthAddressMsg ← Prog.ofExcept request.get
    let value ← getEthAddress env msg
    Prog.ofExcept (InvokeResponse.new value)
  else Prog.throw errUnknownFunction

variable (crypto) in
def code : AccountCode := ⟨init, execute crypto, query⟩

end EthEoaAccount

/-! ### The validator -/

open EthEoaAccount (AuthenticateMsg)

/-- What an account is asked to authenticate: the encoded transaction.  Nothing reads the payload
that a context carries. -/
def AuthenticationPayload.authenticationPayload (rlp : RlpEncoder crypto) (tx : TxContext crypto) :
    SdkResult Message :=
  tx.encode rlp

/-- Asks the account of the sender to authenticate the transaction. -/
def AuthenticationTxValidator.validateTx (rlp : RlpEncoder crypto) (tx : TxContext crypto)
    (_ : Env) : Program Unit := do
  let senderAccount ← tx.resolveSenderAccount
  let payload ← Prog.ofExcept (AuthenticationPayload.authenticationPayload rlp tx)
  match ← Prog.attempt (execAccount Unit senderAccount (AuthenticateMsg.mk payload) []) with
  | .ok () => pure ()
  | .error e => Prog.throw (if e = errUnknownFunction then errNotEoa else e)

/-- A state transition function with this validator. -/
def authenticating {Block : Type} (rlp : RlpEncoder crypto) (stf : Stf (TxContext crypto) Block) :
    Stf (TxContext crypto) Block :=
  { stf with validateTx := AuthenticationTxValidator.validateTx rlp }

variable (crypto) in
/-- A host whose code for externally owned accounts is `EthEoaAccount`. -/
def withEoaCode (host : Host) : Host :=
  { host with
    withCode := fun codeId =>
      if codeId = ethEoaCodeId then .ok (some (EthEoaAccount.code crypto))
      else host.withCode codeId }

/-! ### What an account stores -/

namespace EthEoaAccount

/-- What `get_nonce` answers. -/
def nonceOf (account : AccountId) (w : World) : UInt64 :=
  ((nonce.read w.storage account ()).toOption.join).getD 0

/-- What `get_eth_address` answers. -/
def addressOf (account : AccountId) (w : World) : Address :=
  ((ethAddress.read w.storage account ()).toOption.join).getD zeroAddress

/-- The account has the code of an externally owned account. -/
def Registered (account : AccountId) (w : World) : Prop :=
  w.storage.codeIdentifier account = .ok (some ethEoaCodeId)

theorem nonceOf_eq {account : AccountId} {w : World} {stored : Option UInt64}
    (h : nonce.read w.storage account () = .ok stored) : nonceOf account w = stored.getD 0 := by
  rw [nonceOf, h]
  rfl

theorem addressOf_eq {account : AccountId} {w : World} {stored : Option Address}
    (h : ethAddress.read w.storage account () = .ok stored) :
    addressOf account w = stored.getD zeroAddress := by
  rw [addressOf, h]
  rfl

theorem nonceOf_congr {account : AccountId} {w w' : World} (h : w.SameStore w') :
    nonceOf account w' = nonceOf account w := by
  rw [nonceOf, nonceOf, nonce.read_congr h]

theorem addressOf_congr {account : AccountId} {w w' : World} (h : w.SameStore w') :
    addressOf account w' = addressOf account w := by
  rw [addressOf, addressOf, ethAddress.read_congr h]

theorem registered_congr {account : AccountId} {w w' : World} (h : w.SameStore w') :
    Registered account w' ↔ Registered account w := by
  unfold Registered ExecutionState.codeIdentifier
  rw [h]

/-- The nonce is raised by one and nothing else changes. -/
structure Raises (account : AccountId) (w w' : World) : Prop where
  room : (nonceOf account w).toNat + 1 < 2 ^ 64
  writes : nonce.Writes account () (nonceOf account w + 1) w w'

namespace Raises

variable {account : AccountId} {w w' : World}

theorem of_sameStore {w₁ : World} (hsame : w.SameStore w₁) (h : Raises account w₁ w') :
    Raises account w w' := by
  obtain ⟨room, writes⟩ := h
  rw [nonceOf_congr hsame] at room writes
  exact ⟨room, writes.of_sameStore hsame⟩

theorem nonceOf (h : Raises account w w') :
    (nonceOf account w').toNat = (EthEoaAccount.nonceOf account w).toNat + 1 := by
  rw [nonceOf_eq h.writes.read, Option.getD_some, UInt64.toNat_add]
  exact Nat.mod_eq_of_lt h.room

theorem registered (h : Raises account w w') :
    Registered account w' ↔ Registered account w := by
  unfold Registered
  rw [h.writes.codeIdentifier]

end Raises

/-- What a call of the code that succeeds has checked and done. -/
structure Authenticates (crypto : Crypto) (account : AccountId) (request : InvokeRequest)
    (w w' : World) : Prop extends Raises account w w' where
  function : request.function = InvokableMessage.functionIdentifier AuthenticateMsg
  verified : ∀ msg : AuthenticateMsg, request.get = .ok msg →
    ∀ tx, TxContext.decode crypto msg.tx = .ok tx →
      tx.senderAddress = some (addressOf account w) ∧ tx.nonce = EthEoaAccount.nonceOf account w

/-! ### Calls of the code -/

section

variable (host : Host) (fuel : Nat) (frame : Invoker)

theorem nextNonce_ok {stored : Option UInt64} {next : UInt64} (h : nextNonce stored = .ok next) :
    (stored.getD 0).toNat + 1 < 2 ^ 64 ∧ next = stored.getD 0 + 1 := by
  unfold nextNonce checkedAdd at h
  split at h
  · rename_i found
    split at found
    · rename_i hroom
      cases found
      cases h
      exact ⟨hroom, rfl⟩
    · cases found
  · cases h

theorem settles_incrementNonce (w : World) :
    Exec.Settles ((incrementNonce frame.env).run (environment host fuel frame))
      (fun _ w' => Raises frame.whoami w w') w.SameStore w := by
  unfold incrementNonce
  rw [Prog.run_bind]
  refine .bind ((nonce.settles_update host fuel frame () nextNonce w).mono fun _ w' h => ?_)
  obtain ⟨stored, hread, hnext, hwrites⟩ := h
  obtain ⟨hroom, rfl⟩ := nextNonce_ok hnext
  rw [← nonceOf_eq hread] at hroom hwrites
  exact .pure ⟨hroom, hwrites⟩

theorem settles_authenticateCanonicalTx (tx : TxContext crypto) (expected : Address) (w : World) :
    Exec.Settles ((authenticateCanonicalTx frame.env tx expected).run
        (environment host fuel frame))
      (fun _ w' => Raises frame.whoami w w' ∧ tx.senderAddress = some expected ∧
        tx.nonce = nonceOf frame.whoami w) w.SameStore w := by
  unfold authenticateCanonicalTx
  cases hsender : tx.senderAddress with
  | none => exact .throw (.refl w)
  | some sender =>
    dsimp only
    split
    · exact .throw (.refl w)
    · rename_i hexpected
      rw [Prog.run_bind]
      refine .bind ((nonce.settles_mayGet host fuel frame () w).mono fun stored w₁ h => ?_)
      obtain ⟨hsame, hread⟩ := h
      split
      · exact .throw hsame
      · rename_i hlow
        split
        · exact .throw hsame
        · rename_i hhigh
          have hnonce : tx.nonce = nonceOf frame.whoami w := by
            rw [nonceOf_eq hread]
            exact UInt64.le_antisymm (UInt64.not_lt.mp hhigh) (UInt64.not_lt.mp hlow)
          refine ((settles_incrementNonce host fuel frame w₁).mono_error
            fun _ => hsame.trans).mono fun _ w' h => ?_
          exact ⟨h.of_sameStore hsame, congrArg some (not_not.mp hexpected), hnonce⟩

theorem settles_authenticate (msg : AuthenticateMsg) (w : World) :
    Exec.Settles ((authenticate crypto frame.env msg).run (environment host fuel frame))
      (fun _ w' => Raises frame.whoami w w' ∧
        ∀ tx, TxContext.decode crypto msg.tx = .ok tx →
          tx.senderAddress = some (addressOf frame.whoami w) ∧
            tx.nonce = nonceOf frame.whoami w) w.SameStore w := by
  unfold authenticate
  rw [Prog.run_bind]
  refine .bind ((ethAddress.settles_mayGet host fuel frame () w).mono fun stored w₁ h => ?_)
  obtain ⟨hsame, hread⟩ := h
  rw [← addressOf_eq hread]
  cases hdecode : TxContext.decode crypto msg.tx with
  | ok decoded =>
    refine ((settles_authenticateCanonicalTx host fuel frame decoded _ w₁).mono_error
      fun _ => hsame.trans).mono fun _ w' h => ?_
    obtain ⟨hraises, hsender, hnonce⟩ := h
    refine ⟨hraises.of_sameStore hsame, ?_⟩
    rintro tx ⟨⟩
    exact ⟨hsender, hnonce.trans (nonceOf_congr hsame)⟩
  | error e =>
    show Exec.Settles (Prog.run (environment host fuel frame)
      (Prog.ofExcept (checkPayload crypto frame.env _ msg.tx) >>= fun _ =>
        incrementNonce frame.env)) _ _ w₁
    rw [Prog.run_bind]
    refine .bind (.ofExcept (fun _ _ => ?_) hsame)
    refine ((settles_incrementNonce host fuel frame w₁).mono_error
      fun _ => hsame.trans).mono fun _ w' h => ?_
    refine ⟨h.of_sameStore hsame, ?_⟩
    rintro tx ⟨⟩

variable (crypto) in
theorem settles_execute (request : InvokeRequest) (w : World) :
    Exec.Settles ((execute crypto frame.env request).run (environment host fuel frame))
      (fun response w' => InvokeResponse.get response = .ok () ∧
        Authenticates crypto frame.whoami request w w') w.SameStore w := by
  unfold execute
  split
  · rename_i hfunction
    unfold Token.call
    rw [Prog.run_bind]
    refine .bind (.ofExcept (fun msg hget => ?_) (.refl w))
    split
    · rw [Prog.run_bind]
      refine .bind ((settles_authenticate host fuel frame msg w).mono fun _ w' h => ?_)
      refine .pure ⟨rfl, h.1, hfunction, fun msg' hget' => ?_⟩
      cases hget.symm.trans hget'
      exact h.2
    · exact .throw (.refl w)
  · exact .throw (.refl w)

variable {account : AccountId}

theorem codeOf_registered {w : World} (h : Registered account w) :
    Invoker.codeOf (withEoaCode crypto host) account w =
      .done (.ok (code crypto), w.countRead) :=
  Invoker.codeOf_of_codeIdentifier h rfl

theorem Authenticates.of_sameStore {request : InvokeRequest} {w w₁ w' : World}
    (hsame : w.SameStore w₁) (h : Authenticates crypto account request w₁ w') :
    Authenticates crypto account request w w' := by
  refine ⟨h.toRaises.of_sameStore hsame, h.function, fun msg hget tx hdecode => ?_⟩
  rw [← addressOf_congr hsame, ← nonceOf_congr hsame]
  exact h.verified msg hget tx hdecode

variable (crypto) in
theorem returns_doExec {request : InvokeRequest} {w : World} (hregistered : Registered account w)
    (hfunction : request.function = InvokableMessage.functionIdentifier AuthenticateMsg) :
    Exec.Returns (environment (withEoaCode crypto host) fuel frame (.doExec account request []))
      (fun response w' => InvokeResponse.get response = .ok () ∧
        Authenticates crypto account request w w') w := by
  cases fuel with
  | zero => exact .outOfFuel
  | succ fuel =>
    intro response w' hrun
    obtain ⟨w₁, ⟨⟩, hexec⟩ := doExec_ok hrun
    unfold Invoker.execWithoutTransfers at hexec
    split at hexec
    · -- the runtime has no such function
      unfold Invoker.handleSystemExec at hexec
      rw [if_neg (by rw [hfunction]; decide), if_neg (by rw [hfunction]; decide),
        if_neg (by rw [hfunction]; decide)] at hexec
      cases hexec
    · split at hexec
      · -- nor has the storage
        unfold Invoker.handleStorageExec at hexec
        rw [if_neg (by rw [hfunction]; decide), if_neg (by rw [hfunction]; decide)] at hexec
        cases hexec
      · rw [Exec.bind_apply, codeOf_registered host (by exact hregistered)] at hexec
        have hcode := (settles_execute crypto (withEoaCode crypto host) fuel
          (frame.branchExec account []) request _).returns response w' hexec
        have hsame : w.SameStore (World.countRead { w with storage := w.storage.checkpoint.2 }) :=
          rfl
        exact ⟨hcode.1, hcode.2.of_sameStore hsame⟩

theorem settles_execAccount {payload : Message} {w : World} (hregistered : Registered account w) :
    Exec.Settles ((execAccount Unit account (AuthenticateMsg.mk payload) []).run
        (environment (withEoaCode crypto host) fuel frame))
      (fun _ w' => ∃ request, InvokeRequest.new (AuthenticateMsg.mk payload) = .ok request ∧
        Authenticates crypto account request w w') w.SameStore w := by
  unfold execAccount
  rw [Prog.run_bind]
  refine .bind (.ofExcept (fun request hnew => ?_) (.refl w))
  rw [Prog.run_bind, Prog.run_request]
  have hcall := returns_doExec crypto host fuel frame hregistered (InvokeRequest.new_spec hnew).1
  have hfailed := wp_doExec_sameExceptMetrics (withEoaCode crypto host) fuel frame account request
    [] w
  refine .bind ((Exec.Settles.of_returns hcall ?_).mono fun response w' h => ?_)
  · exact Exec.wp_mono (fun _ _ h e he => (h e he).lookup) hfailed
  · rw [h.1]
    exact .pure ⟨request, hnew, h.2⟩

end

end EthEoaAccount

/-! ### Validation -/

open EthEoaAccount

section

variable (host : Host) (fuel : Nat) (frame : Invoker) (rlp : RlpEncoder crypto)

/-- The account that the transaction is resolved to. -/
def Resolves (tx : TxContext crypto) (account : AccountId) (w : World) : Prop :=
  ∃ w', tx.resolveSenderAccount.run (environment host fuel frame) w = .done (.ok account, w')

theorem keeps_resolveSenderAccount (tx : TxContext crypto) :
    Exec.Keeps World.SameStore (tx.resolveSenderAccount.run (environment host fuel frame)) := by
  unfold TxContext.resolveSenderAccount
  cases tx.senderResolution with
  | account account => exact sameStore_queryRule.keeps_pure _
  | eoaAddress address =>
    dsimp only
    rw [Prog.run_bind]
    refine sameStore_queryRule.keeps_bind (sameStore_queryRule.keeps_run_lift
      (sameStore_queryRule.keeps_doQuery host fuel frame) _) fun found => ?_
    cases found <;> exact sameStore_queryRule.keeps_pure _

theorem settles_validateTx {tx : TxContext crypto} {account : AccountId} {w : World}
    (hresolves : Resolves (withEoaCode crypto host) fuel frame tx account w)
    (hregistered : Registered account w) :
    Exec.Settles (Stf.runIn (withEoaCode crypto host) fuel frame
        (AuthenticationTxValidator.validateTx rlp tx))
      (fun _ w' => ∃ payload request, tx.encode rlp = .ok payload ∧
        InvokeRequest.new (AuthenticateMsg.mk payload) = .ok request ∧
        Authenticates crypto account request w w') w.SameStore w := by
  obtain ⟨w₁, hresolves⟩ := hresolves
  have hsame : w.SameStore w₁ :=
    Exec.wp_done (keeps_resolveSenderAccount (withEoaCode crypto host) fuel frame tx w) hresolves
  unfold Stf.runIn AuthenticationTxValidator.validateTx
  rw [Prog.run_bind]
  refine .bind_from hresolves ?_
  rw [Prog.run_bind]
  refine .bind (.ofExcept (fun payload hpayload => ?_) hsame)
  rw [Prog.run_bind, Prog.run_attempt]
  refine Exec.wp_bind.mpr (Exec.wp_attempt.mpr (Exec.wp_mono (fun r w' h => ?_)
    (settles_execAccount host fuel frame ((registered_congr hsame).mpr hregistered))))
  cases r with
  | error e => exact hsame.trans h
  | ok _ =>
    obtain ⟨request, hnew, h⟩ := h
    exact ⟨payload, request, hpayload, hnew, h.of_sameStore hsame⟩

/-- A transaction with an envelope that names a recipient is validated only if it is signed by the
owner of the account for the nonce that the account has. -/
theorem validateTx_verifies {tx : TxContext crypto} {account : AccountId} {w w' : World}
    (hresolves : Resolves (withEoaCode crypto host) fuel frame tx account w)
    (hregistered : Registered account w) (hdone : Stf.runIn (withEoaCode crypto host) fuel frame
      (AuthenticationTxValidator.validateTx rlp tx) w = .done (.ok (), w'))
    (hpayload : tx.payload = .eoa envelope) (hrecipient : envelope.toAddress.isSome) :
    envelope.sender = addressOf account w ∧ envelope.nonce = nonceOf account w ∧
      Raises account w w' := by
  obtain ⟨payload, request, hencode, hnew, hauth⟩ :=
    (settles_validateTx host fuel frame rlp hresolves hregistered).returns _ _ hdone
  cases (TxContext.encode_eoa rlp hpayload).symm.trans hencode
  obtain ⟨address, haddress⟩ := Option.isSome_iff_exists.mp hrecipient
  obtain ⟨decoded, hdecoded, hsender, hnonce⟩ := TxContext.decode_encode_some rlp haddress
  have hverified := hauth.verified _ (InvokeRequest.new_spec hnew).2 decoded hdecoded
  exact ⟨Option.some.inj (hsender.symm.trans hverified.1), hnonce.symm.trans hverified.2,
    hauth.toRaises⟩

end

end Eth

end Evolve
