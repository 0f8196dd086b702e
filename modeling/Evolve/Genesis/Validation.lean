import Mathlib
import Evolve.Genesis.File

/-! What validation of a genesis file guarantees for its conversion.  Validation notes the
identifier of a transaction before it checks the transaction's references and never looks into
messages; the conversion notes the identifier afterwards and resolves references everywhere. -/

namespace Evolve.Genesis

open Effects

/-! ### What the conversion looks up -/

/-- A text that is neither a reference nor an account in hexadecimal. -/
def AccountSpec.Unparsable : AccountSpec → Prop
  | .reference text => refId text = none ∧ accountFromHex text = none
  | _ => False

instance : DecidablePred AccountSpec.Unparsable
  | .reference text => inferInstanceAs (Decidable (refId text = none ∧ accountFromHex text = none))
  | .named => isFalse id
  | .accountId _ => isFalse id

namespace GenesisTxJson

/-- The conversion ends at this transaction with a text that it cannot parse. -/
def Stops (tx : GenesisTxJson) : Prop := tx.sender.Unparsable ∨ tx.recipient.Unparsable

/-- The references that are looked up before the conversion ends or goes on. -/
def lookups (tx : GenesisTxJson) : List String :=
  if tx.sender.Unparsable then []
  else tx.sender.references ++
    if tx.recipient.Unparsable then [] else tx.recipient.references ++ tx.msg.references

end GenesisTxJson

/-- Every reference that the conversion looks up names a strictly earlier transaction. -/
def GenesisFile.LooksBack (file : GenesisFile) : Prop :=
  ∀ index tx, file.transactions[index]? = some tx →
    (∀ earlier ∈ file.transactions.take index, ¬earlier.Stops) →
      ∀ id ∈ tx.lookups, ∃ earlier ∈ file.transactions.take index, earlier.id = some id

/-! ### How resolution ends -/

theorem resolveAccount_cases (named : AccountId) (role : String) (index : Nat) (scope : Scope)
    (spec : AccountSpec) :
    (¬spec.Unparsable ∧ (∀ id ∈ spec.references, scope.Has id) ∧
      ∃ account, resolveAccount named role index scope spec = .ok account) ∨
    (spec.Unparsable ∧ ∃ text,
      resolveAccount named role index scope spec = .error (.parseError text)) ∨
    (¬spec.Unparsable ∧ ∃ id ∈ spec.references, ¬scope.Has id ∧
      resolveAccount named role index scope spec = .error (.invalidReference id index)) := by
  cases spec with
  | named => exact .inl ⟨id, by simp [AccountSpec.references], named, rfl⟩
  | accountId account => exact .inl ⟨id, by simp [AccountSpec.references], account, rfl⟩
  | reference text =>
    simp only [AccountSpec.Unparsable, AccountSpec.references, resolveAccount]
    cases href : refId text with
    | some id =>
      rcases scope.resolve_cases index id with ⟨hhas, hok⟩ | ⟨hmissing, herror⟩
      · exact .inl ⟨by simp, by simpa using hhas, hok⟩
      · exact .inr (.inr ⟨by simp, id, by simp, hmissing, herror⟩)
    | none =>
      cases hhex : accountFromHex text with
      | some account => exact .inl ⟨by simp, by simp, account, rfl⟩
      | none => exact .inr (.inl ⟨by simp, _, rfl⟩)

/-- The ends of the conversion of one transaction: a reference is missing, a text cannot be parsed,
or it is left to the registry. -/
theorem toTransaction_cases (registry : MessageRegistry) (index : Nat) (scope : Scope)
    (tx : GenesisTxJson) :
    (∃ id ∈ tx.lookups, ¬scope.Has id ∧ ∃ i,
      toTransaction registry index scope tx = .error (.invalidReference id i)) ∨
    ((∀ id ∈ tx.lookups, scope.Has id) ∧ tx.Stops ∧ ∃ text,
      toTransaction registry index scope tx = .error (.parseError text)) ∨
    ((∀ id ∈ tx.lookups, scope.Has id) ∧ ¬tx.Stops ∧ ∃ msg sender recipient,
      toTransaction registry index scope tx =
        (registry tx.msgType msg).map fun request => ⟨tx.id, sender, recipient, request⟩) := by
  unfold GenesisTxJson.Stops GenesisTxJson.lookups
  rcases resolveAccount_cases systemAccountId "sender" index scope tx.sender with
    ⟨hparsed, hhas, sender, hsender⟩ | ⟨hunparsable, text, herror⟩ |
      ⟨hparsed, id, hid, hmissing, herror⟩
  · rcases resolveAccount_cases runtimeAccountId "recipient" index scope tx.recipient with
      ⟨hparsed', hhas', recipient, hrecipient⟩ | ⟨hunparsable, text, herror⟩ |
        ⟨hparsed', id, hid, hmissing, herror⟩
    · rcases resolveReferencesInValue_cases scope tx.msg with ⟨hmsg, msg, hok⟩ |
        ⟨id, hid, hmissing, herror⟩
      · refine .inr (.inr ⟨?_, by simp [hparsed, hparsed'], msg, sender, recipient, ?_⟩)
        · simp only [hparsed, hparsed', if_false, List.mem_append]
          rintro id (hid | hid | hid)
          · exact hhas id hid
          · exact hhas' id hid
          · exact hmsg id hid
        · simp only [toTransaction, resolveSender, resolveRecipient, hsender, hrecipient, hok]
          rfl
      · refine .inl ⟨id, by simp [hparsed, hparsed', hid], hmissing, 0, ?_⟩
        simp only [toTransaction, resolveSender, resolveRecipient, hsender, hrecipient, herror]
        rfl
    · refine .inr (.inl ⟨by simpa [hparsed, hunparsable] using hhas, .inr hunparsable, text, ?_⟩)
      simp only [toTransaction, resolveSender, resolveRecipient, hsender, herror]
      rfl
    · refine .inl ⟨id, by simp [hparsed, hparsed', hid], hmissing, index, ?_⟩
      simp only [toTransaction, resolveSender, resolveRecipient, hsender, herror]
      rfl
  · refine .inr (.inl ⟨by simp [hunparsable], .inl hunparsable, text, ?_⟩)
    simp only [toTransaction, resolveSender, herror]
    rfl
  · refine .inl ⟨id, by simp [hparsed, hid], hmissing, index, ?_⟩
    simp only [toTransaction, resolveSender, herror]
    rfl

/-! ### How the conversion ends -/

/-- The transactions look back, with the identifiers that a scope has counted as earlier. -/
def LooksBackFrom (scope : Scope) : List GenesisTxJson → Prop
  | [] => True
  | tx :: txs =>
    (∀ id ∈ tx.lookups, scope.Has id) ∧ (¬tx.Stops → LooksBackFrom (scope.afterTx tx) txs)

variable {scope : Scope}

theorem Scope.has_afterTx {tx : GenesisTxJson} {id : String} :
    (scope.afterTx tx).Has id ↔ scope.Has id ∨ tx.id = some id := by
  unfold Has afterTx
  cases htx : tx.id with
  | none => simp
  | some own =>
    by_cases hsame : id = own
    · simp [hsame]
    · have hbeq : (id == own) = false := beq_false_of_ne hsame
      simp [List.lookup_cons, hbeq, Ne.symm hsame]

variable {txs : List GenesisTxJson}

theorem looksBackFrom_iff :
    LooksBackFrom scope txs ↔ ∀ index tx, txs[index]? = some tx →
      (∀ earlier ∈ txs.take index, ¬earlier.Stops) →
        ∀ id ∈ tx.lookups, scope.Has id ∨ ∃ earlier ∈ txs.take index, earlier.id = some id := by
  induction txs generalizing scope with
  | nil => simp [LooksBackFrom]
  | cons first txs ih =>
    rw [LooksBackFrom, ih]
    constructor
    · rintro ⟨hfirst, hrest⟩ index tx hindex hgoes id hid
      cases index with
      | zero =>
        cases hindex
        exact .inl (hfirst id hid)
      | succ index =>
        simp only [List.take_succ_cons, List.forall_mem_cons] at hgoes
        simp only [List.take_succ_cons, List.exists_mem_cons_iff]
        rw [← or_assoc, ← Scope.has_afterTx]
        exact hrest hgoes.1 index tx hindex hgoes.2 id hid
    · intro h
      refine ⟨fun id hid => ?_, fun hgoes index tx hindex hrest id hid => ?_⟩
      · simpa using h 0 first rfl (by simp) id hid
      · have hnext := h (index + 1) tx hindex
        simp only [List.take_succ_cons, List.forall_mem_cons, List.exists_mem_cons_iff] at hnext
        rw [Scope.has_afterTx, or_assoc]
        exact hnext ⟨hgoes, hrest⟩ id hid

theorem registry_of_invalidReference {registry : MessageRegistry} {index i : Nat} {id : String}
    (hback : LooksBackFrom scope txs)
    (h : toTransactionsFrom registry index scope txs = .error (.invalidReference id i)) :
    ∃ msgType msg, registry msgType msg = .error (.invalidReference id i) := by
  induction txs generalizing index scope with
  | nil => cases h
  | cons tx txs ih =>
    obtain ⟨hfirst, hrest⟩ := hback
    rw [toTransactionsFrom] at h
    rcases toTransaction_cases registry index scope tx with ⟨missing, hmem, hmissing, -⟩ |
      ⟨-, -, text, herror⟩ | ⟨-, hgoes, msg, sender, recipient, hregistry⟩
    · exact absurd (hfirst missing hmem) hmissing
    · rw [herror] at h
      cases h
    · cases hanswer : registry tx.msgType msg with
      | error e =>
        rw [hregistry, hanswer] at h
        cases h
        exact ⟨tx.msgType, msg, hanswer⟩
      | ok request =>
        rw [hregistry, hanswer] at h
        cases hothers : toTransactionsFrom registry (index + 1) (scope.afterTx tx) txs with
        | ok others =>
          rw [hothers] at h
          cases h
        | error e =>
          rw [hothers] at h
          cases h
          exact ih (hrest hgoes) hothers

theorem looksBackFrom_of_accepted (request : InvokeRequest) (index : Nat) (h : ∀ id i,
      toTransactionsFrom (fun _ _ => .ok request) index scope txs ≠
        .error (.invalidReference id i)) : LooksBackFrom scope txs := by
  induction txs generalizing index scope with
  | nil => trivial
  | cons tx txs ih =>
    simp only [toTransactionsFrom] at h
    rcases toTransaction_cases (fun _ _ => .ok request) index scope tx with
      ⟨missing, -, -, i, herror⟩ | ⟨hhas, hstops, -⟩ | ⟨hhas, hgoes, msg, sender, recipient, hok⟩
    · rw [herror] at h
      exact absurd rfl (h missing i)
    · exact ⟨hhas, fun hgoes => absurd hstops hgoes⟩
    · refine ⟨hhas, fun _ => ih (index + 1) fun id i herror => h id i ?_⟩
      rw [hok, herror]
      rfl

/-- For every file that validation accepts: with every registry, the conversion ends with an invalid
reference only if the registry reports one, if and only if each sender, recipient and message
reference that is looked up names a strictly earlier transaction. -/
theorem toTransactions_no_invalidReference_iff {file : GenesisFile}
    (hvalid : file.validate = .ok ()) :
    (∀ registry id i, file.toTransactions registry = .error (.invalidReference id i) →
      ∃ msgType msg, registry msgType msg = .error (.invalidReference id i)) ↔
    file.LooksBack := by
  have hconverts (registry : MessageRegistry) : file.toTransactions registry =
      toTransactionsFrom registry 0 .initial file.transactions := by
    rw [GenesisFile.toTransactions, hvalid]
    rfl
  have hback : LooksBackFrom .initial file.transactions ↔ file.LooksBack := by
    rw [looksBackFrom_iff]
    simp [GenesisFile.LooksBack, Scope.Has, Scope.initial]
  simp only [hconverts, ← hback]
  constructor
  · intro h
    refine looksBackFrom_of_accepted ⟨"", 0, []⟩ 0 fun id i herror => ?_
    obtain ⟨_, _, hregistry⟩ := h _ id i herror
    cases hregistry
  · intro h registry id i herror
    exact registry_of_invalidReference h herror

/-! ### Files that are accepted -/

/-- The second transaction refers to the first as its sender and in its message. -/
def backwardFile : GenesisFile :=
  ⟨[⟨some "a", .named, .named, "create", .null⟩,
    ⟨none, .reference "$a", .named, "send", .array [.string "$a"]⟩]⟩

theorem backwardFile_looksBack : backwardFile.LooksBack := by
  intro index tx hindex _ id hid
  match index with
  | 0 =>
    cases hindex
    cases hid
  | 1 =>
    cases hindex
    have hid : id = "a" := by
      have hlookups : GenesisTxJson.lookups
          ⟨none, .reference "$a", .named, "send", .array [.string "$a"]⟩ = ["a", "a"] := by decide
      rw [hlookups] at hid
      simpa using hid
    exact ⟨_, List.mem_cons_self .., by rw [hid]⟩
  | index + 2 => simp [backwardFile] at hindex

theorem backwardFile_no_invalidReference : backwardFile.validate = .ok () ∧
    ∀ registry id i, backwardFile.toTransactions registry = .error (.invalidReference id i) →
      ∃ msgType msg, registry msgType msg = .error (.invalidReference id i) :=
  ⟨by decide, (toTransactions_no_invalidReference_iff (by decide)).mpr backwardFile_looksBack⟩

/-- The only transaction is sent by the account that it creates itself. -/
def selfFile : GenesisFile := ⟨[⟨some "a", .reference "$a", .named, "create", .null⟩]⟩

/-- A message refers to an identifier that no transaction has. -/
def danglingFile : GenesisFile :=
  ⟨[⟨none, .named, .named, "send", .array [.string "$b"]⟩]⟩

/-- Both files are accepted; with any registry, the conversion ends with an invalid reference. -/
theorem accepted_with_invalidReference :
    selfFile.validate = .ok () ∧ danglingFile.validate = .ok () ∧
      ∀ registry, selfFile.toTransactions registry = .error (.invalidReference "a" 0) ∧
        danglingFile.toTransactions registry = .error (.invalidReference "b" 0) :=
  ⟨by decide, by decide, fun _ => ⟨rfl, rfl⟩⟩

end Evolve.Genesis
