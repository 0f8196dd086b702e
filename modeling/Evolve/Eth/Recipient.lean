import Mathlib
import Evolve.Eth.DirectWrites
import Evolve.Eth.RegistryRuns
import Evolve.Rpc.Service
import Evolve.Stf.Accounts
import Evolve.Stf.History
import Evolve.Stf.Snapshots

/-! Recipients that a transaction registers.  An address without an account is given one while the
recipient is resolved, in the frame of the sender.  The registry is looked up in the namespace of
the runtime account, so the account is found again only if the sender is the runtime account, and
only as long as nothing else is stored in its place. -/

namespace Evolve

open Machine Borsh Effects

namespace Eth

variable {crypto : Crypto}

/-! ### Addresses that are found -/

/-- Every lookup of the address finds the account: from any frame, unless the gas does not suffice,
and in the store that the changes are committed to. -/
structure Finds (host : Host) (address : Address) (account : AccountId) (w : World) : Prop where
  returned : ∀ fuel frame,
    Exec.Returns ((lookupAccountIdInEnv address).lift.run (environment host fuel frame))
      (fun found _ => found = some account) w
  answered : w.gasCounter = .infinite → ∀ fuel frame,
    Exec.Yields ((lookupAccountIdInEnv address).lift.run (environment host (fuel + 1) frame))
      (fun found _ => found = some account) w
  committed : lookupAccountIdInStorage
    (ExecutionState.applyChanges w.storage.baseStorage w.storage.intoChanges) address =
      .ok (some account)

theorem lookupAccountIdInStorage_applyChanges (w : World) (address : Address) :
    lookupAccountIdInStorage
      (ExecutionState.applyChanges w.storage.baseStorage w.storage.intoChanges) address =
        registeredAccount w address := by
  unfold registeredAccount lookupAccountIdInStorage lookupInStorage
  rw [← ExecutionState.changesOf_toList, ExecutionState.applyChanges_changesOf
    (ExecutionState.enumerates_toList w.storage.overlay)]

theorem finds_iff {host : Host} {address : Address} {account : AccountId} {w : World} :
    Finds host address account w ↔ registeredAccount w address = .ok (some account) := by
  constructor
  · intro h
    exact (lookupAccountIdInStorage_applyChanges w address).symm.trans h.committed
  · intro h
    refine ⟨fun fuel frame => ?_, fun hgas fuel frame => ?_, ?_⟩
    · have hlookup := settles_lookupInEnv host fuel frame AccountId (addrToIdKey address) w
      refine hlookup.returns.mono fun found _ hfound => ?_
      exact Except.ok.inj (hfound.2.symm.trans h)
    · exact (yields_lookupAccountIdInEnv host fuel frame hgas h).mono fun _ _ hfound => hfound.1
    · exact (lookupAccountIdInStorage_applyChanges w address).trans h

/-! ### What resolving a recipient writes -/

/-- What another account than the runtime account stores is not in the registry. -/
theorem Ensured.elsewhere {owner : AccountId} {address : Address} {account : AccountId}
    {w w' : World} (h : Ensured owner address account w w') (howner : owner ≠ runtimeAccountId) :
    SameRegistry w w' := by
  obtain ⟨found, -, h⟩ := h
  split at h
  · exact .of_sameStore h
  · obtain ⟨id, addr, -, -, hlookup⟩ := h
    intro key
    rw [hlookup, if_neg fun hkey => howner (accountStorageKey_inj_iff.mp hkey).1,
      if_neg fun hkey => howner (accountStorageKey_inj_iff.mp hkey).1]

/-- The address has no account and no contract. -/
def Unregistered (w : World) (address : Address) : Prop :=
  registeredAccount w address = .ok none ∧
    lookupInStorage AccountId w.storage.lookup (contractAddrToIdKey address) = .ok none

instance (w : World) (address : Address) : Decidable (Unregistered w address) :=
  inferInstanceAs (Decidable (_ ∧ _))

theorem returns_resolveRecipientAccount (host : Host) (fuel : Nat) (frame : Invoker)
    {tx : TxContext crypto} {address : Address} {w : World}
    (hto : tx.recipientResolution = .eoaAddress address) (hfresh : Unregistered w address) :
    Exec.Returns (tx.resolveRecipientAccount.run
        (environment (withEoaCode crypto host) fuel frame))
      (fun account w' => ∃ w₁, SameRegistry w w₁ ∧
        Ensured frame.whoami address account w₁ w') w := by
  have hlookup := fun key w =>
    (settles_lookupInEnv (withEoaCode crypto host) fuel frame AccountId key w).returns
  unfold TxContext.resolveRecipientAccount
  rw [hto]
  dsimp only
  rw [Prog.run_bind]
  refine .bind ((hlookup _ w).mono fun found w₁ h₁ => ?_)
  obtain ⟨hsame₁, hfound⟩ := h₁
  cases hfresh.1.symm.trans hfound
  show Exec.Returns (Prog.run _ _) _ w₁
  rw [Prog.run_bind]
  refine .bind ((hlookup _ w₁).mono fun contract w₂ h₂ => ?_)
  obtain ⟨hsame₂, hcontract⟩ := h₂
  rw [hsame₁] at hcontract
  cases hfresh.2.symm.trans hcontract
  have hsame := SameRegistry.of_sameStore (hsame₁.trans hsame₂)
  refine (returns_resolveOrCreateEoaAccount host fuel frame crypto address w₂).mono
    fun account w₃ h₃ => ?_
  rcases h₃ with ⟨hfound, -⟩ | ⟨-, -, w', hregistry, hensured⟩
  · rw [hsame.account, hfresh.1] at hfound
    cases hfound
  · exact ⟨w', hsame.trans hregistry, hensured⟩

/-! ### The rest of the block -/

/-- Where the registry has the account of an address. -/
def entryKey (address : Address) : Bytes :=
  Invoker.accountStorageKey runtimeAccountId (addrToIdKey address)

def EntryOf (account : AccountId) (entry : Option Message) : Prop :=
  (Map.decodeValue entry : SdkResult (Option AccountId)) = .ok (some account)

theorem holds_iff {address : Address} {account : AccountId} {w : World} :
    w.Holds (entryKey address) (EntryOf account) ↔
      registeredAccount w address = .ok (some account) := by
  constructor
  · rintro ⟨entry, hentry, hdecodes⟩
    unfold entryKey at hentry
    unfold registeredAccount lookupAccountIdInStorage lookupInStorage
    rw [hentry]
    exact hdecodes
  · intro h
    exact bind_eq_ok h

section

variable {Block : Type}

/-- What the execution phase does once the recipient is resolved. -/
def afterResolution (host : Host) (fuel : Nat) (stf : Stf (TxContext crypto) Block)
    (tx : TxContext crypto) (sender : AccountId) (context : BlockContext) (recipient : AccountId) :
    Traced InvokeResponse := do
  let frame := Stf.executionFrame tx sender context
  let response ← Logged.attempt (Traced.within (.phase .executeTx frame) [] fun stack =>
    tracedEnvironment host fuel stack frame
      (.doExec recipient (Transaction.request tx) (Transaction.funds tx)))
  let gasUsed ← Logged.lift Run.gasUsed
  Traced.runIn host fuel .afterTxExecuted frame (stf.afterTxExecuted tx gasUsed response)
  Logged.ofExcept response

theorem keeps_afterResolution {host : Host} {Ok : Nat → Stack → Prop}
    {R : World → List Action → Option World → Prop} (rule : TraceRule host Ok R) {fuel : Nat}
    (phases : AllPhases Ok fuel) {stf : Stf (TxContext crypto) Block} {tx : TxContext crypto}
    {sender recipient : AccountId} {context : BlockContext} :
    Logged.Keeps R (afterResolution host fuel stf tx sender context recipient) := by
  refine rule.keeps_bind (rule.keeps_within (phases.phase _ _)
    (rule.keeps_call fuel (phases.hook _ _ _))).attempt fun response => ?_
  refine rule.keeps_bind (rule.keeps_lift (.read _)) fun gasUsed => ?_
  refine rule.keeps_bind (rule.keeps_phase phases _ _ _) fun _ => ?_
  exact rule.keeps_ofExcept _

/-- In a block from `w` to `last` a transaction of the sender succeeds, and the resolution of its
recipient gives the address, which had none, the account.  `w'` is the world after the resolution,
and `later` is what the block does from then on. -/
structure RegistersRecipient [BlockTrait Block (TxContext crypto)] (host : Host) (fuel : Nat)
    (stf : Stf (TxContext crypto) Block) (block : Block) (w : World) (address : Address)
    (sender account : AccountId) (w' : World) (later : List Action) (last : World) : Prop where
  ends : ∃ result, stf.applyBlock (withEoaCode crypto host) fuel block w = .done (result, last)
  registers : ∃ before tx context w₁ response w₂ after,
    (Recorded.applyBlock (withEoaCode crypto host) fuel stf block).log w =
      before ++ ⟨.executeTx tx sender context, w₁, .ok response, w₂⟩ :: after ∧
    tx.recipientResolution = .eoaAddress address ∧ Unregistered w₁ address ∧
    Stf.runIn (withEoaCode crypto host) fuel (Stf.executionFrame tx sender context)
      (Transaction.resolveRecipientAccount tx) w₁ = .done (.ok account, w') ∧
    later = (afterResolution (withEoaCode crypto host) fuel stf tx sender context account).log w' ++
      after.flatMap (Moment.trace (withEoaCode crypto host) fuel stf)

/-- The address is found with the account in the world, in every later one, and at the end of the
block, also in what is committed then. -/
structure StaysFound (host : Host) (address : Address) (account : AccountId) (w : World)
    (later : List Action) (last : World) : Prop where
  first : Finds host address account w
  during : ∀ action ∈ later, ∀ w ∈ action.worlds, Finds host address account w
  atEnd : Finds host address account last

variable [BlockTrait Block (TxContext crypto)] {host : Host} {fuel : Nat}
  {stf : Stf (TxContext crypto) Block} {block : Block} {w w' last : World} {address : Address}
  {sender account : AccountId} {later : List Action}

theorem RegistersRecipient.keepsEntry {key : Bytes} {P : Option Message → Prop}
    (h : RegistersRecipient host fuel stf block w address sender account w' later last) :
    KeepsEntry key P w' later (some last) := by
  obtain ⟨result, hends⟩ := h.ends
  obtain ⟨before, tx, context, w₁, response, w₂, after, hrecord, -, -, hresolved, rfl⟩ :=
    h.registers
  have hhistory := (isHistory_applyBlock block).done
    ((congrFun (Recorded.exec_applyBlock _ fuel stf block) w).trans hends)
  rw [hrecord] at hhistory
  have hphase : (Traced.executeTxPhase (withEoaCode crypto host) fuel stf tx sender context).exec
      w₁ = .done (.ok response, w₂) := by
    rw [Traced.exec_executeTxPhase]
    exact hhistory.ran (List.mem_append_right _ List.mem_cons_self)
  have hrest : (afterResolution (withEoaCode crypto host) fuel stf tx sender context account).exec
      w' = .done (.ok response, w₂) := by
    rw [← Traced.exec_runIn _ _ .resolveRecipient] at hresolved
    rw [← hphase]
    refine Eq.trans ?_ (congrFun (Logged.exec_bind _ _) w₁).symm
    rw [Exec.bind_apply, hresolved]
    rfl
  have rule := keepsEntry_traceRule (withEoaCode crypto host) key P
  have hphases : AllPhases (fun _ _ => True) fuel :=
    ⟨fun _ _ => trivial, fun _ _ _ => trivial, fun _ _ _ => trivial⟩
  exact rule.trans ((keeps_afterResolution rule hphases).done hrest)
    (hhistory.drop.keeps rule.toComposes (fun _ _ => keepsEntry_nil) (rule.keeps_part hphases))

theorem RegistersRecipient.found_iff
    (h : RegistersRecipient host fuel stf block w address sender account w' later last) :
    registeredAccount w' address = .ok (some account) ↔ sender = runtimeAccountId := by
  obtain ⟨_, tx, context, w₁, _, _, _, -, haddressed, hfresh, hresolved, -⟩ := h.registers
  obtain ⟨w₂, hsame, hensured⟩ :=
    returns_resolveRecipientAccount host fuel _ haddressed hfresh account w' hresolved
  have hframe : (Stf.executionFrame tx sender context).whoami = sender := rfl
  rw [hframe] at hensured
  constructor
  · intro hfound
    by_contra hsender
    have hregistry := hsame.trans (hensured.elsewhere hsender)
    rw [hregistry.account, hfresh.1] at hfound
    cases hfound
  · rintro rfl
    rw [hensured.joins.account_eq, if_pos rfl]

/-- The account that a transaction registers for its recipient is found for the rest of the block
and after its commit, if and only if the sender is the runtime account, and what the rest of the
block stores in the place of the account is that account. -/
theorem recipient_staysFound_iff
    (h : RegistersRecipient host fuel stf block w address sender account w' later last) :
    StaysFound (withEoaCode crypto host) address account w' later last ↔
      sender = runtimeAccountId ∧
        ∀ action ∈ later, action.Stores (entryKey address) (EntryOf account) := by
  have hkeeps : KeepsEntry (entryKey address) (EntryOf account) w' later (some last) :=
    h.keepsEntry
  have hfinds : ∀ {w}, Finds (withEoaCode crypto host) address account w ↔
      w.Holds (entryKey address) (EntryOf account) := finds_iff.trans holds_iff.symm
  constructor
  · intro hfound
    refine ⟨h.found_iff.mp (finds_iff.mp hfound.first), fun action haction => ?_⟩
    exact hkeeps.stores action haction fun w hw => hfinds.mp (hfound.during action haction w hw)
  · rintro ⟨hsender, hstores⟩
    have hfirst := h.found_iff.mpr hsender
    obtain ⟨hworlds, hlast⟩ := hkeeps.holds (holds_iff.mpr hfirst) hstores
    exact ⟨finds_iff.mpr hfirst, fun action haction w hw =>
      hfinds.mpr (hworlds action haction w hw), hfinds.mpr (hlast last rfl)⟩

end

/-! ### Two senders -/

def creditedAddress : Address := FixedBytes.repeatByte 20 5

def creditedAccount : AccountId := deriveEthEoaAccountId sampleCrypto creditedAddress

/-- A call to an address, with a payload that an externally owned account accepts from anyone. -/
def creditWire (sender : AccountId) : TxContextWireV1 :=
  { directWire with
    gasLimit := 900000
    invokeRequest := ⟨"authenticate", InvokableMessage.functionIdentifier
      EthEoaAccount.AuthenticateMsg, [0, 0, 0, 0]⟩
    senderAccount := sender
    recipientAccount := none
    recipientEthAddress := some creditedAddress }

def creditHost : Host := withEoaCode sampleCrypto sampleHost

abbrev CreditBlock := ServerBlock (TxContext sampleCrypto)

def creditStf : Stf (TxContext sampleCrypto) CreditBlock where
  beginBlock _ _ := pure ()
  endBlock _ := pure ()
  validateTx _ _ := pure ()
  afterTxExecuted _ _ _ _ := pure ()
  storageGasConfig := ⟨10, 10, 10⟩

/-- Transactions of the senders to the address. -/
def creditBlock (senders : List AccountId) : CreditBlock :=
  ⟨1, 0, 10000000, Evnode.ExecutorServiceImpl.decodeTxs sampleCrypto
    (senders.map fun sender => wireBytes (creditWire sender))⟩

def creditHistory (senders : List AccountId) :
    List (Moment (TxContext sampleCrypto) CreditBlock) :=
  (Recorded.applyBlock creditHost 4 creditStf (creditBlock senders)).log emptyWorld

instance {key : Bytes} {P : Option Message → Prop} [DecidablePred P] (action : Action) :
    Decidable (action.Stores key P) :=
  match action with
  | .begins _ _ => isTrue trivial
  | .write _ _ _ key' entry => inferInstanceAs (Decidable (key' = key → P entry))

instance (account : AccountId) : DecidablePred (EntryOf account) :=
  fun _ => inferInstanceAs (Decidable (_ = _))

/-- The first of the moments is the execution of a transaction of the sender that registers the
address, and `Q` holds of the world after the resolution and what is done from then on. -/
def creditsAt (sender : AccountId) (Q : World → List Action → Bool) :
    List (Moment (TxContext sampleCrypto) CreditBlock) → Bool
  | ⟨.executeTx tx sender' context, w₁, .ok _, _⟩ :: after =>
    decide (sender' = sender ∧ tx.recipientResolution = .eoaAddress creditedAddress ∧
      Unregistered w₁ creditedAddress ∧
      Exec.Ends (Stf.runIn creditHost 4 (Stf.executionFrame tx sender' context)
          (Transaction.resolveRecipientAccount tx))
        (fun r w' => r = .ok creditedAccount ∧
          Q w' ((afterResolution creditHost 4 creditStf tx sender' context creditedAccount).log
            w' ++ after.flatMap (Moment.trace creditHost 4 creditStf)) = true) w₁)
  | _ => false

theorem registersRecipient_of_any (sender : AccountId) (Q : World → List Action → Bool)
    {senders : List AccountId} {result : SdkResult (BlockResult × List _)} {last : World}
    (hends : creditStf.applyBlock creditHost 4 (creditBlock senders) emptyWorld =
      .done (result, last))
    (h : (creditHistory senders).tails.any (creditsAt sender Q) = true) :
    ∃ w' later, RegistersRecipient sampleHost 4 creditStf (creditBlock senders) emptyWorld
      creditedAddress sender creditedAccount w' later last ∧ Q w' later = true := by
  obtain ⟨moments, htails, hmoments⟩ := List.any_eq_true.mp h
  obtain ⟨before, hbefore⟩ := (List.mem_tails _ _).mp htails
  unfold creditsAt at hmoments
  split at hmoments
  · obtain ⟨rfl, haddressed, hfresh, hresolves⟩ := of_decide_eq_true hmoments
    obtain ⟨_, w', hresolved, rfl, hQ⟩ := hresolves.exists
    exact ⟨w', _, ⟨⟨result, hends⟩, before, _, _, _, _, _, _, hbefore.symm, haddressed, hfresh,
      hresolved, rfl⟩, hQ⟩
  · cases hmoments

theorem lostBlock_ends :
    Exec.Ends (creditStf.applyBlock creditHost 4 (creditBlock [.fromU64 12])) (fun _ last =>
      registeredAccount last creditedAddress = .ok none) emptyWorld := by
  decide +kernel

/-- A transaction from account 12: the account it credits is not in the registry, and not in the
store that the changes of the block are committed to. -/
theorem credited_not_staysFound : ∃ w' later last,
    RegistersRecipient sampleHost 4 creditStf (creditBlock [.fromU64 12]) emptyWorld
        creditedAddress (.fromU64 12) creditedAccount w' later last ∧
      ¬ StaysFound creditHost creditedAddress creditedAccount w' later last ∧
      lookupAccountIdInStorage (ExecutionState.applyChanges last.storage.baseStorage
        last.storage.intoChanges) creditedAddress = .ok none := by
  obtain ⟨_, last, hends, hnone⟩ := lostBlock_ends.exists
  obtain ⟨w', later, hregisters, -⟩ := registersRecipient_of_any (.fromU64 12)
    (fun _ _ => true) hends (by decide +kernel)
  refine ⟨w', later, last, hregisters, fun h => ?_,
    (lookupAccountIdInStorage_applyChanges last creditedAddress).trans hnone⟩
  cases hnone.symm.trans (finds_iff.mp h.atEnd)

theorem keptBlock_ends :
    Exec.Ends (creditStf.applyBlock creditHost 4 (creditBlock [runtimeAccountId, .fromU64 12]))
      (fun r _ => (r.toOption.map fun r => r.1.txResults.map (·.response)) =
        some [.ok ⟨[]⟩, .ok ⟨[]⟩]) emptyWorld := by
  decide +kernel

/-- A transaction from the runtime account: the account it credits stays in the registry, where the
next transaction to the address finds it. -/
theorem credited_staysFound : ∃ w' later last,
    RegistersRecipient sampleHost 4 creditStf (creditBlock [runtimeAccountId, .fromU64 12])
        emptyWorld creditedAddress runtimeAccountId creditedAccount w' later last ∧
      StaysFound creditHost creditedAddress creditedAccount w' later last := by
  obtain ⟨_, last, hends, -⟩ := keptBlock_ends.exists
  obtain ⟨w', later, hregisters, hstores⟩ := registersRecipient_of_any runtimeAccountId
    (fun _ later => later.all fun action =>
      decide (action.Stores (entryKey creditedAddress) (EntryOf creditedAccount)))
    hends (by decide +kernel)
  refine ⟨w', later, last, hregisters, (recipient_staysFound_iff hregisters).mpr ⟨rfl, ?_⟩⟩
  intro action haction
  exact of_decide_eq_true (List.all_eq_true.mp hstores action haction)

end Eth

end Evolve
