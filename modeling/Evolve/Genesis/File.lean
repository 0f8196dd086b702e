import Mathlib
import Evolve.Core
import Evolve.Lib.Effects

/-! Genesis files: the transactions of a file, the references between them, and how a file becomes a
list of genesis transactions.  Reading the JSON text is left to `serde`; the model starts from the
values that it gives. -/

namespace Evolve.Genesis

open Machine Effects

/-- A number of `serde_json`, a floating-point number by its bits. -/
inductive Number where
  | posInt (n : UInt64)
  | negInt (n : Int64)
  | float (bits : UInt64)
deriving DecidableEq

inductive Json where
  | null
  | bool (b : Bool)
  | number (n : Number)
  | string (s : String)
  | array (values : List Json)
  | object (entries : List (String × Json))

inductive GenesisError where
  | parseError (text : String)
  | invalidReference (refId : String) (index : Nat)
  | duplicateId (text : String)
  | failed (text : String)
  | transactionFailed (index : Nat) (id : Option String) (error : String)
  | unknownMessageType (msgType : String)
  | encodeError (text : String)
deriving DecidableEq

/-! ### Hexadecimal text -/

/-- Drops every `0x` that the text starts with. -/
def trimHexMarks : List Char → List Char
  | '0' :: 'x' :: rest => trimHexMarks rest
  | chars => chars

def accountFromHex (text : String) : Option AccountId := do
  let bytes ← hexDecode (trimHexMarks text.toList)
  if h : bytes.length = 32 then some ⟨⟨bytes, h⟩⟩ else none

/-! ### Transactions of a file -/

/-- How a file names an account: by the name of its role, which is `system` for a sender and
`runtime` for a recipient, by a text, or by its identity. -/
inductive AccountSpec where
  | named
  | reference (text : String)
  | accountId (id : AccountId)
deriving DecidableEq

abbrev SenderSpec := AccountSpec

abbrev RecipientSpec := AccountSpec

structure GenesisTxJson where
  id : Option String
  sender : SenderSpec
  recipient : RecipientSpec
  msgType : String
  msg : Json

structure GenesisFile where
  transactions : List GenesisTxJson

structure GenesisTx where
  id : Option String
  sender : AccountId
  recipient : AccountId
  request : InvokeRequest
deriving DecidableEq

/-- Encodes a message of the given type. -/
abbrev MessageRegistry := String → Json → Except GenesisError InvokeRequest

def systemAccountId : AccountId := .fromU64 0

/-- The identifier that a text refers to, if it starts with a dollar sign. -/
def refId (text : String) : Option String :=
  match text.toList with
  | '$' :: rest => some (String.ofList rest)
  | _ => none

/-! ### Validation -/

def checkReference (index : Nat) (seenIds : List (String × Nat)) :
    AccountSpec → Except GenesisError Unit
  | .reference text =>
    match refId text with
    | some id =>
      if (seenIds.lookup id).isSome then .ok () else .error (.invalidReference id index)
    | none => .ok ()
  | _ => .ok ()

def checkId (index : Nat) (seenIds : List (String × Nat)) :
    Option String → Except GenesisError (List (String × Nat))
  | none => .ok seenIds
  | some id =>
    match seenIds.lookup id with
    | some prevIndex =>
      .error (.duplicateId s!"'{id}' at index {index} (first seen at {prevIndex})")
    | none => .ok ((id, index) :: seenIds)

def validateFrom : Nat → List (String × Nat) → List GenesisTxJson → Except GenesisError Unit
  | _, _, [] => .ok ()
  | index, seenIds, tx :: txs => do
    let seenIds ← checkId index seenIds tx.id
    checkReference index seenIds tx.sender
    checkReference index seenIds tx.recipient
    validateFrom (index + 1) seenIds txs

def GenesisFile.validate (file : GenesisFile) : Except GenesisError Unit :=
  validateFrom 0 [] file.transactions

/-! ### Resolution -/

/-- The accounts that references can resolve to, and the identity for the next one. -/
structure Scope where
  idToAccount : List (String × AccountId)
  nextAccountId : AccountId

namespace Scope

/-- Identities are given out from 1; 0 is the system account. -/
def initial : Scope := ⟨[], .fromU64 1⟩

def resolve (scope : Scope) (index : Nat) (id : String) : Except GenesisError AccountId :=
  match scope.idToAccount.lookup id with
  | some account => .ok account
  | none => .error (.invalidReference id index)

/-- A transaction with an identifier is assumed to create the next account. -/
def afterTx (scope : Scope) (tx : GenesisTxJson) : Scope :=
  match tx.id with
  | some id => ⟨(id, scope.nextAccountId) :: scope.idToAccount, scope.nextAccountId.increase⟩
  | none => scope

end Scope

def resolveAccount (named : AccountId) (role : String) (index : Nat) (scope : Scope) :
    AccountSpec → Except GenesisError AccountId
  | .named => .ok named
  | .reference text =>
    match refId text with
    | some id => scope.resolve index id
    | none =>
      match accountFromHex text with
      | some account => .ok account
      | none => .error (.parseError s!"invalid {role}: {text}")
  | .accountId id => .ok id

def resolveSender : Nat → Scope → SenderSpec → Except GenesisError AccountId :=
  resolveAccount systemAccountId "sender"

def resolveRecipient : Nat → Scope → RecipientSpec → Except GenesisError AccountId :=
  resolveAccount runtimeAccountId "recipient"

mutual

/-- Replaces the references in a value by the identities they resolve to.  The errors give index 0,
whatever transaction the value belongs to. -/
def resolveReferencesInValue (scope : Scope) : Json → Except GenesisError Json
  | .string s =>
    match refId s with
    | some id => do
      let account ← scope.resolve 0 id
      pure (.string (hexEncode account.asBytes))
    | none => .ok (.string s)
  | .array values => do
    let resolved ← resolveReferencesInArray scope values
    pure (.array resolved)
  | .object entries => do
    let resolved ← resolveReferencesInObject scope entries
    pure (.object resolved)
  | .null => .ok .null
  | .bool b => .ok (.bool b)
  | .number n => .ok (.number n)

def resolveReferencesInArray (scope : Scope) : List Json → Except GenesisError (List Json)
  | [] => .ok []
  | value :: values => do
    let resolved ← resolveReferencesInValue scope value
    let rest ← resolveReferencesInArray scope values
    pure (resolved :: rest)

def resolveReferencesInObject (scope : Scope) :
    List (String × Json) → Except GenesisError (List (String × Json))
  | [] => .ok []
  | (key, value) :: entries => do
    let resolved ← resolveReferencesInValue scope value
    let rest ← resolveReferencesInObject scope entries
    pure ((key, resolved) :: rest)

end

def toTransaction (registry : MessageRegistry) (index : Nat) (scope : Scope) (tx : GenesisTxJson) :
    Except GenesisError GenesisTx := do
  let sender ← resolveSender index scope tx.sender
  let recipient ← resolveRecipient index scope tx.recipient
  let msg ← resolveReferencesInValue scope tx.msg
  let request ← registry tx.msgType msg
  pure ⟨tx.id, sender, recipient, request⟩

def toTransactionsFrom (registry : MessageRegistry) :
    Nat → Scope → List GenesisTxJson → Except GenesisError (List GenesisTx)
  | _, _, [] => .ok []
  | index, scope, tx :: txs => do
    let converted ← toTransaction registry index scope tx
    let rest ← toTransactionsFrom registry (index + 1) (scope.afterTx tx) txs
    pure (converted :: rest)

def GenesisFile.toTransactions (file : GenesisFile) (registry : MessageRegistry) :
    Except GenesisError (List GenesisTx) := do
  file.validate
  toTransactionsFrom registry 0 .initial file.transactions

/-- What the transaction at the given index can refer to. -/
def GenesisFile.scopeAt (file : GenesisFile) (index : Nat) : Scope :=
  (file.transactions.take index).foldl Scope.afterTx .initial

/-! ### References -/

def AccountSpec.references : AccountSpec → List String
  | .reference text => (refId text).toList
  | _ => []

mutual

def Json.references : Json → List String
  | .string s => (refId s).toList
  | .array values => referencesInArray values
  | .object entries => referencesInObject entries
  | .null => []
  | .bool _ => []
  | .number _ => []

def referencesInArray : List Json → List String
  | [] => []
  | value :: values => value.references ++ referencesInArray values

def referencesInObject : List (String × Json) → List String
  | [] => []
  | (_, value) :: entries => value.references ++ referencesInObject entries

end

def GenesisTxJson.references (tx : GenesisTxJson) : List String :=
  tx.sender.references ++ tx.recipient.references ++ tx.msg.references

def GenesisFile.references (file : GenesisFile) : List String :=
  file.transactions.flatMap GenesisTxJson.references

/-! ### What resolution succeeds on -/

/-- The identifier has an account. -/
def Scope.Has (scope : Scope) (id : String) : Prop :=
  ∃ account, scope.idToAccount.lookup id = some account

theorem Scope.has_of_resolve {scope : Scope} {index : Nat} {id : String} {account : AccountId}
    (h : scope.resolve index id = .ok account) :
    scope.idToAccount.lookup id = some account := by
  unfold resolve at h
  split at h
  · rename_i found hfound
    cases h
    exact hfound
  · cases h

theorem has_of_resolveAccount {named account : AccountId} {role : String} {index : Nat}
    {scope : Scope} {spec : AccountSpec}
    (h : resolveAccount named role index scope spec = .ok account) :
    ∀ id ∈ spec.references, scope.Has id := by
  intro id hid
  cases spec with
  | named => cases hid
  | accountId _ => cases hid
  | reference text =>
    have hrefers : refId text = some id := Option.mem_toList.mp hid
    rw [resolveAccount, hrefers] at h
    exact ⟨account, Scope.has_of_resolve h⟩

theorem Scope.resolve_cases (scope : Scope) (index : Nat) (id : String) :
    (scope.Has id ∧ ∃ account, scope.resolve index id = .ok account) ∨
      (¬scope.Has id ∧ scope.resolve index id = .error (.invalidReference id index)) := by
  unfold resolve Has
  cases scope.idToAccount.lookup id with
  | some account => exact .inl ⟨⟨account, rfl⟩, account, rfl⟩
  | none => exact .inr ⟨by rintro ⟨_, ⟨⟩⟩, rfl⟩

mutual

theorem resolveReferencesInValue_cases (scope : Scope) : ∀ value : Json,
    ((∀ id ∈ value.references, scope.Has id) ∧
      ∃ resolved, resolveReferencesInValue scope value = .ok resolved) ∨
    ∃ id ∈ value.references, ¬scope.Has id ∧
      resolveReferencesInValue scope value = .error (.invalidReference id 0)
  | .string s => by
    simp only [Json.references, resolveReferencesInValue]
    cases href : refId s with
    | none => exact .inl ⟨by simp, _, rfl⟩
    | some id =>
      rcases scope.resolve_cases 0 id with ⟨hhas, account, hok⟩ | ⟨hmissing, herror⟩
      · exact .inl ⟨by simpa using hhas, _, by simp only [hok]; rfl⟩
      · exact .inr ⟨id, by simp, hmissing, by simp only [herror]; rfl⟩
  | .array values => by
    simp only [Json.references, resolveReferencesInValue]
    rcases resolveReferencesInArray_cases scope values with ⟨hhas, resolved, hok⟩ |
      ⟨id, hid, hmissing, herror⟩
    · exact .inl ⟨hhas, _, by rw [hok]; rfl⟩
    · exact .inr ⟨id, hid, hmissing, by rw [herror]; rfl⟩
  | .object entries => by
    simp only [Json.references, resolveReferencesInValue]
    rcases resolveReferencesInObject_cases scope entries with ⟨hhas, resolved, hok⟩ |
      ⟨id, hid, hmissing, herror⟩
    · exact .inl ⟨hhas, _, by rw [hok]; rfl⟩
    · exact .inr ⟨id, hid, hmissing, by rw [herror]; rfl⟩
  | .null => .inl ⟨by simp [Json.references], _, by rw [resolveReferencesInValue]⟩
  | .bool _ => .inl ⟨by simp [Json.references], _, by rw [resolveReferencesInValue]⟩
  | .number _ => .inl ⟨by simp [Json.references], _, by rw [resolveReferencesInValue]⟩

theorem resolveReferencesInArray_cases (scope : Scope) : ∀ values : List Json,
    ((∀ id ∈ referencesInArray values, scope.Has id) ∧
      ∃ resolved, resolveReferencesInArray scope values = .ok resolved) ∨
    ∃ id ∈ referencesInArray values, ¬scope.Has id ∧
      resolveReferencesInArray scope values = .error (.invalidReference id 0)
  | [] => .inl ⟨by simp [referencesInArray], _, by rw [resolveReferencesInArray]⟩
  | value :: values => by
    simp only [referencesInArray, resolveReferencesInArray, List.mem_append]
    rcases resolveReferencesInValue_cases scope value with ⟨hhas, resolved, hok⟩ |
      ⟨id, hid, hmissing, herror⟩
    · rcases resolveReferencesInArray_cases scope values with ⟨hrest, others, hothers⟩ |
        ⟨id, hid, hmissing, herror⟩
      · refine .inl ⟨fun id hid => hid.elim (hhas id) (hrest id), resolved :: others, ?_⟩
        rw [hok, hothers]
        rfl
      · exact .inr ⟨id, .inr hid, hmissing, by rw [hok, herror]; rfl⟩
    · exact .inr ⟨id, .inl hid, hmissing, by rw [herror]; rfl⟩

theorem resolveReferencesInObject_cases (scope : Scope) : ∀ entries : List (String × Json),
    ((∀ id ∈ referencesInObject entries, scope.Has id) ∧
      ∃ resolved, resolveReferencesInObject scope entries = .ok resolved) ∨
    ∃ id ∈ referencesInObject entries, ¬scope.Has id ∧
      resolveReferencesInObject scope entries = .error (.invalidReference id 0)
  | [] => .inl ⟨by simp [referencesInObject], _, by rw [resolveReferencesInObject]⟩
  | (key, value) :: entries => by
    simp only [referencesInObject, resolveReferencesInObject, List.mem_append]
    rcases resolveReferencesInValue_cases scope value with ⟨hhas, resolved, hok⟩ |
      ⟨id, hid, hmissing, herror⟩
    · rcases resolveReferencesInObject_cases scope entries with ⟨hrest, others, hothers⟩ |
        ⟨id, hid, hmissing, herror⟩
      · refine .inl ⟨fun id hid => hid.elim (hhas id) (hrest id), (key, resolved) :: others, ?_⟩
        rw [hok, hothers]
        rfl
      · exact .inr ⟨id, .inr hid, hmissing, by rw [hok, herror]; rfl⟩
    · exact .inr ⟨id, .inl hid, hmissing, by rw [herror]; rfl⟩

end

theorem toTransaction_spec {registry : MessageRegistry} {index : Nat} {scope : Scope}
    {tx : GenesisTxJson} {converted : GenesisTx}
    (h : toTransaction registry index scope tx = .ok converted) :
    converted.id = tx.id ∧ ∀ id ∈ tx.references, scope.Has id := by
  obtain ⟨_, hsender, h⟩ := bind_eq_ok h
  obtain ⟨_, hrecipient, h⟩ := bind_eq_ok h
  obtain ⟨_, hmsg, h⟩ := bind_eq_ok h
  obtain ⟨_, _, h⟩ := bind_eq_ok h
  cases h
  refine ⟨rfl, fun id hid => ?_⟩
  rcases List.mem_append.mp hid with hid | hid
  · rcases List.mem_append.mp hid with hid | hid
    · exact has_of_resolveAccount hsender id hid
    · exact has_of_resolveAccount hrecipient id hid
  · rcases resolveReferencesInValue_cases scope tx.msg with ⟨hhas, -⟩ | ⟨_, -, -, herror⟩
    · exact hhas id hid
    · cases hmsg.symm.trans herror

end Evolve.Genesis
