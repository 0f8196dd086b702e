import Mathlib
import Evolve.Core

/-! Ethereum transaction envelopes.  A signed transaction carries the proof that its sender is the
address that its signature recovers to. -/

namespace Evolve

open Machine Borsh

def ErrorCode.withArg (e : ErrorCode) (arg : UInt16) : ErrorCode := .newWithArg e.id arg

namespace Eth

abbrev Address := FixedBytes 20

abbrev B256 := FixedBytes 32

abbrev U256 := BitVec 256

theorem length_take_padded (bytes : Bytes) :
    ((bytes ++ List.replicate 32 0).take 32).length = 32 := by
  simp

def errSignatureRecovery : ErrorCode := defineError 0x11
def errInvalidChainId : ErrorCode := defineError 0x12
def errUnsupportedTxType : ErrorCode := defineError 0x13
def errTxDecode : ErrorCode := defineError 0x14
def errEmptyInput : ErrorCode := defineError 0x15

/-! ### Transactions and signatures -/

structure TxLegacy where
  chainId : Option UInt64
  nonce : UInt64
  gasPrice : U128
  gasLimit : UInt64
  toAddress : Option Address
  value : U256
  input : Bytes

structure TxEip1559 where
  chainId : UInt64
  nonce : UInt64
  gasLimit : UInt64
  maxFeePerGas : U128
  maxPriorityFeePerGas : U128
  toAddress : Option Address
  value : U256
  accessList : List (Address × List B256)
  input : Bytes

structure PrimitiveSignature where
  r : U256
  s : U256
  v : Bool

structure Signed (Tx : Type) where
  tx : Tx
  signature : PrimitiveSignature

/-- The functions of other libraries: hashing, public key recovery and the RLP encodings.  Decoding
returns the transaction with the bytes after it. -/
structure Crypto where
  keccak256 : Bytes → B256
  recoverEcdsa : B256 → PrimitiveSignature → Option (FixedBytes 64)
  legacySignatureHash : TxLegacy → B256
  eip1559SignatureHash : TxEip1559 → B256
  rlpDecodeLegacy : Bytes → Option (Signed TxLegacy × Bytes)
  rlpDecodeEip1559 : Bytes → Option (Signed TxEip1559 × Bytes)

def addressOfHash (hash : B256) : Address :=
  ⟨hash.bytes.drop 12, by simp [hash.length_eq]⟩

def recoverSenderFromSignatureHash (crypto : Crypto) (signatureHash : B256)
    (signature : PrimitiveSignature) : SdkResult Address :=
  match crypto.recoverEcdsa signatureHash signature with
  | some publicKey => .ok (addressOfHash (crypto.keccak256 publicKey.bytes))
  | none => .error errSignatureRecovery

structure SignedTx (crypto : Crypto) {Tx : Type} (signatureHash : Tx → B256) where
  inner : Signed Tx
  sender : Address
  hash : B256
  recovered : recoverSenderFromSignatureHash crypto (signatureHash inner.tx) inner.signature =
    .ok sender

/-- Recovers the sender.  The hash is that of the bytes the transaction was decoded from. -/
def SignedTx.fromAlloyWithBytes (crypto : Crypto) {Tx : Type} (signatureHash : Tx → B256)
    (signed : Signed Tx) (rawBytes : Bytes) : SdkResult (SignedTx crypto signatureHash) :=
  match h : recoverSenderFromSignatureHash crypto (signatureHash signed.tx) signed.signature with
  | .ok sender => .ok ⟨signed, sender, crypto.keccak256 rawBytes, h⟩
  | .error e => .error e

abbrev SignedLegacyTx (crypto : Crypto) := SignedTx crypto crypto.legacySignatureHash

abbrev SignedEip1559Tx (crypto : Crypto) := SignedTx crypto crypto.eip1559SignatureHash

def invokeRequestFromInput (input : Bytes) : InvokeRequest :=
  if input.length ≥ 4 then
    .newFromMessage "eth_dispatch" (UInt64.ofNat (beNat (input.take 4))) (input.drop 4)
  else .newFromMessage "eth_dispatch" 0 input

/-! ### Envelopes -/

namespace TxType

def legacy : UInt8 := 0x00
def eip1559 : UInt8 := 0x02

end TxType

inductive TxEnvelope (crypto : Crypto) where
  | legacy (tx : SignedLegacyTx crypto)
  | eip1559 (tx : SignedEip1559Tx crypto)

namespace TxEnvelope

variable {crypto : Crypto}

def txType : TxEnvelope crypto → UInt8
  | .legacy _ => TxType.legacy
  | .eip1559 _ => TxType.eip1559

def sender : TxEnvelope crypto → Address
  | .legacy tx => tx.sender
  | .eip1559 tx => tx.sender

def txHash : TxEnvelope crypto → B256
  | .legacy tx => tx.hash
  | .eip1559 tx => tx.hash

def gasLimit : TxEnvelope crypto → UInt64
  | .legacy tx => tx.inner.tx.gasLimit
  | .eip1559 tx => tx.inner.tx.gasLimit

def chainId : TxEnvelope crypto → Option UInt64
  | .legacy tx => tx.inner.tx.chainId
  | .eip1559 tx => some tx.inner.tx.chainId

def nonce : TxEnvelope crypto → UInt64
  | .legacy tx => tx.inner.tx.nonce
  | .eip1559 tx => tx.inner.tx.nonce

def toAddress : TxEnvelope crypto → Option Address
  | .legacy tx => tx.inner.tx.toAddress
  | .eip1559 tx => tx.inner.tx.toAddress

def input : TxEnvelope crypto → Bytes
  | .legacy tx => tx.inner.tx.input
  | .eip1559 tx => tx.inner.tx.input

def toInvokeRequests (envelope : TxEnvelope crypto) : List InvokeRequest :=
  if envelope.toAddress.isNone then [] else [invokeRequestFromInput envelope.input]

variable (crypto) in
def decodeFrom (bytes : Bytes) : SdkResult (TxEnvelope crypto × Bytes) :=
  match bytes with
  | [] => .error errEmptyInput
  | firstByte :: payload =>
    -- RLP lists start with 0xc0 or more, typed transactions with their type
    if firstByte ≥ 0xc0 then
      match crypto.rlpDecodeLegacy bytes with
      | none => .error errTxDecode
      | some (signed, cursor) =>
        let consumed := bytes.length - cursor.length
        (SignedTx.fromAlloyWithBytes crypto crypto.legacySignatureHash signed
          (bytes.take consumed)).map fun tx => (.legacy tx, bytes.drop consumed)
    else if firstByte = TxType.eip1559 then
      match crypto.rlpDecodeEip1559 payload with
      | none => .error errTxDecode
      | some (signed, cursor) =>
        let consumed := payload.length - cursor.length
        (SignedTx.fromAlloyWithBytes crypto crypto.eip1559SignatureHash signed
          (TxType.eip1559 :: payload.take consumed)).map fun tx =>
            (.eip1559 tx, payload.drop consumed)
    else .error (errUnsupportedTxType.withArg firstByte.toUInt16)

variable (crypto) in
def decode (bytes : Bytes) : SdkResult (TxEnvelope crypto) :=
  match decodeFrom crypto bytes with
  | .error e => .error e
  | .ok (tx, []) => .ok tx
  | .ok (_, _ :: _) => .error errTxDecode

end TxEnvelope

/-! ### Transactions of one key -/

deriving instance DecidableEq for TxLegacy
deriving instance DecidableEq for PrimitiveSignature
deriving instance DecidableEq for Signed

def word (x : Nat) : B256 := ⟨beBytes 32 x, length_beBytes 32 x⟩

/-- A signed transaction, its encoding up to the signature, and its two hashes. -/
structure KnownTx where
  nonce : UInt64
  toAddress : Option Address
  fields : Bytes
  r : U256
  s : U256
  signatureHash : B256
  hash : B256

namespace KnownTx

def tx (known : KnownTx) : TxLegacy :=
  ⟨some 1, known.nonce, 1000000000, 100000, known.toAddress, 0, []⟩

def signature (known : KnownTx) : PrimitiveSignature := ⟨known.r, known.s, false⟩

def bytes (known : KnownTx) : Bytes :=
  known.fields ++ beBytes 32 known.r.toNat ++ 0xa0 :: beBytes 32 known.s.toNat

def first : KnownTx where
  nonce := 0
  toAddress := some (FixedBytes.repeatByte 20 0xBB)
  fields := beBytes 37 0xf86480843b9aca00830186a094bbbbbbbbbbbbbbbbbbbbbbbbbbbbbbbbbbbbbbbb808025a0
  r := 0x241c816d3024d3a9865365c7c88e467275dc251a357b829c9dabdaf3b9ac705c
  s := 0x0127449a3bb1e83c8f51df4d93875206dcec7afbe03ee6504296d39ff39ae9e1
  signatureHash := word 0xa301a6081373f0959d4e1d226c032dfd54637a5e939ead7101e0b2ba491be50c
  hash := word 0xebc2ddd8bc73b3056598094981f1650c993be4fe1ca88c2c68d9c2e9f54bc857

def second : KnownTx where
  nonce := 1
  toAddress := some (FixedBytes.repeatByte 20 0xBB)
  fields := beBytes 37 0xf86401843b9aca00830186a094bbbbbbbbbbbbbbbbbbbbbbbbbbbbbbbbbbbbbbbb808025a0
  r := 0x492351c0a4040bd8900e6ebb6cb45c626a90d161d213079424f5f3c99c44eb56
  s := 0x6178370f0934fffb5eeaf7660b20f81807f81a851cc6b81fa0d9ab3c93410240
  signatureHash := word 0x6a616ac7dd5debdda71ba5b640eea0bbebdd95bbaaed97170595ddd4bb6724a5
  hash := word 0xadce894de96b34717285920c2e138563a662503d2712b50cea7f2469b48a1bec

def creation : KnownTx where
  nonce := 0
  toAddress := none
  fields := beBytes 17 0xf85080843b9aca00830186a080808025a0
  r := 0x7f1dcc0f640e93d1dcf84386420b07b841019d2cfeccc7080144cfcb6892b673
  s := 0x2534626b84fe24cb71bb801beaafe390c4278e88cd4f4ecf69e81b7cf230bd81
  signatureHash := word 0x075f1b805229e7581047e520b5d85dc119b25412e256488495d9d0fe9ffb901e
  hash := word 0x47ba153d30bd0e3da8ee57af62000a3d74071e25753f4030e27365ee79158968

end KnownTx

def knownTxs : List KnownTx := [.first, .second, .creation]

/-- The key that signed them: the private key is the byte `0x46`, thirty-two times. -/
def signerKey : FixedBytes 64 where
  bytes := beBytes 32 0x4bc2a31265153f07e70e0bab08724e6b85e217f8cd628ceb62974247bb493382 ++
    beBytes 32 0xce28cab79ad7119ee1ad3ebcdb98a16805211530ecc6cfefa1b88e6dff99232a
  length_eq := by simp

def signerAddress : Address :=
  ⟨beBytes 20 0x9d8a62f656a8d1615c1294fd71e9cfb3e4855a4f, length_beBytes 20 _⟩

/-- The values of the library on these transactions.  Other bytes are hashed by padding, and nothing
else is signed. -/
def sampleCrypto : Crypto where
  keccak256 bytes :=
    if bytes = signerKey.bytes then
      word 0x9cead80a9d0a0951cdbf966b9d8a62f656a8d1615c1294fd71e9cfb3e4855a4f
    else
      ((knownTxs.find? (·.bytes = bytes)).map KnownTx.hash).getD
        ⟨(bytes ++ List.replicate 32 0).take 32, length_take_padded bytes⟩
  recoverEcdsa hash signature :=
    if ∃ known ∈ knownTxs, known.signatureHash = hash ∧ known.signature = signature then
      some signerKey
    else none
  legacySignatureHash tx :=
    ((knownTxs.find? (·.tx = tx)).map KnownTx.signatureHash).getD (word 0)
  eip1559SignatureHash _ := word 0
  rlpDecodeLegacy bytes :=
    (knownTxs.find? (·.bytes.isPrefixOf bytes)).map fun known =>
      (⟨known.tx, known.signature⟩, bytes.drop known.bytes.length)
  rlpDecodeEip1559 _ := none

example : ∀ known ∈ knownTxs, (TxEnvelope.decode sampleCrypto known.bytes).toOption.map
    (fun envelope => (envelope.sender, envelope.txHash, envelope.nonce)) =
      some (signerAddress, known.hash, known.nonce) := by
  decide +kernel

end Eth

end Evolve
