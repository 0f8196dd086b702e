import Mathlib
import Evolve.Eth.Authentication
import Evolve.Eth.DirectWrites
import Evolve.Rpc.Service
import Evolve.Stf.History

/-! The nonce of an externally owned account: what can change it in a part of a block, whatever the
code of the other accounts, and whose transactions do. -/

namespace Evolve

open Machine Borsh Effects Eth EthEoaAccount

variable {crypto : Crypto}

/-! ### The records of an account -/

def nonceKey (account : AccountId) : Bytes := Invoker.accountStorageKey account [nonce.keyPrefix]

theorem nonceOf_of_lookup {account : AccountId} {w w' : World}
    (h : w'.storage.lookup (nonceKey account) = w.storage.lookup (nonceKey account)) :
    nonceOf account w' = nonceOf account w := by
  have hread : ∀ w : World, nonce.read w.storage account () =
      Map.decodeValue =<< w.storage.lookup (nonceKey account) := fun _ => rfl
  rw [nonceOf, nonceOf, hread, hread, h]

theorem registered_of_lookup {account : AccountId} {w w' : World}
    (h : w'.storage.lookup (accountCodeIdentifierKey account) =
      w.storage.lookup (accountCodeIdentifierKey account)) :
    Registered account w' ↔ Registered account w := by
  unfold Registered ExecutionState.codeIdentifier
  rw [h]

/-! ### What happens to an account -/

namespace Activity

def initialises (account : AccountId) : Activity → Bool
  | .code .init frame _ _ => frame.whoami == account
  | _ => false

end Activity

namespace Action

/-- The account is given a code, or is initialised. -/
def reassigns (account : AccountId) : Action → Bool
  | .begins _ _ => false
  | .write stack _ _ key _ =>
    decide (key = accountCodeIdentifierKey account) ||
      (decide (key = nonceKey account) && stack.any (·.initialises account))

/-- The nonce is written at the direct request of a transaction or of a migration. -/
def overwritesNonce (account : AccountId) : Action → Bool
  | .begins _ _ => false
  | .write stack _ _ key _ => decide (key = nonceKey account) && stack.asksDirectly

/-- The account begins to authenticate something. -/
def authenticates (account : AccountId) : Action → Bool
  | .begins (.code .execute frame _ request :: _) _ =>
    frame.whoami == account &&
      request.function == InvokableMessage.functionIdentifier AuthenticateMsg
  | _ => false

end Action

/-- The account keeps its code, and nobody writes its nonce but its code. -/
structure Undisturbed (account : AccountId) (actions : List Action) : Prop where
  assigned : ∀ action ∈ actions, action.reassigns account = false
  owned : ∀ action ∈ actions, action.overwritesNonce account = false

theorem undisturbed_append {account : AccountId} {l l' : List Action} :
    Undisturbed account (l ++ l') ↔ Undisturbed account l ∧ Undisturbed account l' := by
  constructor
  · rintro ⟨hassigned, howned⟩
    rw [List.forall_mem_append] at hassigned howned
    exact ⟨⟨hassigned.1, howned.1⟩, hassigned.2, howned.2⟩
  · rintro ⟨⟨hassigned, howned⟩, hassigned', howned'⟩
    exact ⟨List.forall_mem_append.mpr ⟨hassigned, hassigned'⟩,
      List.forall_mem_append.mpr ⟨howned, howned'⟩⟩

/-- What undisturbed actions do to the nonce. -/
structure NonceStep (account : AccountId) (actions : List Action) (w w' : World) : Prop where
  registered : Registered account w'
  le : nonceOf account w ≤ nonceOf account w'
  same : (∀ action ∈ actions, action.authenticates account = false) →
    nonceOf account w' = nonceOf account w

theorem NonceStep.of_eq {account : AccountId} {l : List Action} {w w' : World}
    (hregistered : Registered account w') (h : nonceOf account w' = nonceOf account w) :
    NonceStep account l w w' :=
  ⟨hregistered, UInt64.le_of_eq h.symm, fun _ => h⟩

theorem NonceStep.of_sameStore {account : AccountId} {l : List Action} {w w' : World}
    (hregistered : Registered account w) (h : w.SameStore w') : NonceStep account l w w' :=
  .of_eq ((registered_congr h).mpr hregistered) (nonceOf_congr h)

def KeepsNonce (account : AccountId) (w : World) (actions : List Action) (last : Option World) :
    Prop :=
  Registered account w → Undisturbed account actions →
    ∀ w' ∈ last, NonceStep account actions w w'

/-! ### Outside the code of the account -/

/-- The stack can arise, and the account is not executed in it. -/
structure Outside (account : AccountId) (stack : Stack) : Prop where
  live : Live Opens stack
  outside : ∀ a ∈ stack, a.executes account = false

namespace Outside

variable {account : AccountId} {stack : Stack}

theorem cons {a : Activity} (h : Outside account stack) (live : Live Opens (a :: stack))
    (ha : a.executes account = false) : Outside account (a :: stack) :=
  ⟨live, List.forall_mem_cons.mpr ⟨ha, h.outside⟩⟩

theorem asksDirectly_or_initialises (h : Outside account stack)
    (hwrites : stack.Writes (nonceKey account)) :
    stack.asksDirectly = true ∨ stack.any (·.initialises account) = true := by
  obtain ⟨frame, data, funds, paid, rest, rfl, rfl, -⟩ := hwrites.namespace
  obtain ⟨_, _, _, _, rfl, hlive, -⟩ := h.live.exec_cases .opens
  rcases hlive.doExec_cases .opens with ⟨entry, code, request, _, rfl, hentry⟩ | ⟨_, _, rfl, -⟩ |
    ⟨_, rfl⟩
  · refine .inr ?_
    cases entry with
    | init => simp [Activity.initialises]
    | execute => simpa [Activity.executes] using h.outside
    | query => exact absurd rfl hentry
  · exact .inl rfl
  · exact .inl rfl

end Outside

theorem keepsNonce_rule (account : AccountId) :
    WriteRule (fun _ => Outside account) (KeepsNonce account) where
  refl w hregistered _ := by
    rintro _ ⟨⟩
    exact .of_sameStore hregistered (.refl w)
  trans a l b l' o h₁ h₂ hregistered hundisturbed w' hw' := by
    obtain ⟨hl, hl'⟩ := undisturbed_append.mp hundisturbed
    have first := h₁ hregistered hl b rfl
    have second := h₂ first.registered hl' w' hw'
    refine ⟨second.registered, UInt64.le_trans first.le second.le, fun hnone => ?_⟩
    rw [List.forall_mem_append] at hnone
    exact (second.same hnone.2).trans (first.same hnone.1)
  begets hok hbegets hb := by
    refine hok.cons (.begets hok.live hbegets) ?_
    unfold Activity.executes
    split
    · cases hb
    · rfl
  migrated _ hok := hok.cons (.migrated hok.live) rfl
  exhausted _ _ _ _ := by
    rintro _ ⟨⟩
  begins _ w hregistered _ := by
    rintro _ ⟨⟩
    exact .of_sameStore hregistered (.refl w)
  silent w w' h hregistered _ := by
    rintro _ ⟨⟩
    exact .of_sameStore hregistered h.lookup
  rollback w l w' hext _ hregistered _ := by
    rintro _ ⟨⟩
    refine .of_sameStore hregistered ?_
    funext key
    simp only [World.rollback, ExecutionState.rollback, ExecutionState.lookup, hext.base]
  write {fuel stack w w' key entry} hok hwrites hwritten hregistered hundisturbed := by
    rintro _ ⟨⟩
    have hassigned := hundisturbed.assigned _ (List.mem_singleton_self _)
    have howned := hundisturbed.owned _ (List.mem_singleton_self _)
    simp only [Action.reassigns, Action.overwritesNonce, Bool.or_eq_false_iff,
      Bool.and_eq_false_iff, decide_eq_false_iff_not] at hassigned howned
    have hnonce : key ≠ nonceKey account := by
      rintro rfl
      rcases hok.asksDirectly_or_initialises hwrites with hdirect | hinit
      · exact absurd hdirect (by simpa using howned)
      · exact absurd hinit (by simpa using hassigned.2)
    refine .of_eq ((registered_of_lookup ?_).mpr hregistered) (nonceOf_of_lookup ?_)
    · rw [hwritten.lookup, if_neg hassigned.1]
    · rw [hwritten.lookup, if_neg hnonce]

/-! ### The code of the account -/

section

variable (host : Host) (fuel : Nat) {account : AccountId}

/-- The code of the account makes no step but that of an authentication. -/
theorem keepsNonce_executeCode {frame : Invoker} {data : InvokeRequest}
    {funds : List FungibleAsset} {stack : Stack} :
    Logged.Keeps (KeepsNonce account) (Traced.executeCode (withEoaCode crypto host) fuel frame
      account data funds stack) := by
  intro w hregistered _ w' hw'
  obtain ⟨r, hexec⟩ := Logged.exec_of_last hw'
  have hcode : Invoker.codeOf (withEoaCode crypto host) account w =
      .done (.ok (EthEoaAccount.code crypto), w.countRead) := codeOf_registered host hregistered
  unfold Traced.executeCode at hexec ⊢
  rw [Logged.exec_bind, Logged.exec_lift, Exec.bind_apply, hcode] at hexec
  rw [Logged.log_bind, Logged.exec_lift, hcode]
  replace hexec : (Traced.runCode (tracedEnvironment (withEoaCode crypto host) fuel) .execute
    (frame.branchExec account funds) (EthEoaAccount.code crypto) data stack).exec w.countRead =
      .done (r, w') := hexec
  rw [Traced.exec_runCode (exec_tracedEnvironment _ fuel)] at hexec
  have hsettles := settles_execute crypto (withEoaCode crypto host) fuel
    (frame.branchExec account funds) data w.countRead
  have hsame : w.SameStore w.countRead := rfl
  cases r with
  | error e => exact .of_sameStore hregistered (hsame.trans (hsettles.fails hexec))
  | ok response =>
    have hauth : Authenticates crypto account data w w' :=
      (hsettles.returns response w' hexec).2.of_sameStore hsame
    refine ⟨hauth.registered.mpr hregistered, ?_, fun hnone => ?_⟩
    · rw [UInt64.le_iff_toNat_le, hauth.nonceOf]
      exact Nat.le_succ _
    · -- The first action is the start of the code with the request that it authenticates.
      have hbegins := hnone _ (List.mem_append_right _ (List.mem_append_left _
        (List.mem_singleton_self _)))
      simp [Action.authenticates, Invoker.branchExec, hauth.function] at hbegins

theorem keepsNonce_traceRule (account : AccountId) :
    TraceRule (withEoaCode crypto host) (fun _ => Outside account) (KeepsNonce account) where
  toActionRule := (keepsNonce_rule account).actionRule _
  run hentry hcalls hok := by
    refine ((keepsNonce_rule account).actionRule _).keeps_runCode hcalls hok fun op hop => ?_
    exact hok.cons (.issue hok.live hop) rfl
  execute {fuel frame target data funds paid stack} hcalls hruntime hstorage hok := by
    by_cases htarget : target = account
    · subst htarget
      exact keepsNonce_executeCode host fuel
    · have rule := (keepsNonce_rule account).actionRule (withEoaCode crypto host)
      refine rule.keeps_bind (rule.keeps_lift (.codeOf _ _)) fun code => ?_
      have hcode : Outside account (.code .execute (frame.branchExec target funds) code data ::
          .exec frame target data funds paid :: stack) :=
        hok.cons (.begets hok.live (.execute hruntime hstorage))
          (by simpa [Activity.executes, Invoker.branchExec] using htarget)
      exact rule.keeps_runCode hcalls hcode fun op hop => hcode.cons (.issue hcode.live hop) rfl

theorem outside_allPhases (account : AccountId) (fuel : Nat) :
    AllPhases (fun _ => Outside account) fuel where
  phase _ _ := ⟨.root .phase, by simp [Activity.executes]⟩
  hook _ _ _ := ⟨.hook (.root .phase), by simp [Activity.executes]⟩
  register _ _ _ := ⟨.root .register, by simp [Activity.executes]⟩

end

/-! ### Parts of blocks -/

section

variable {host : Host} {fuel : Nat} {Block : Type} {rlp : RlpEncoder crypto}
  {stf : Stf (TxContext crypto) Block} {account : AccountId}
  {moment : Moment (TxContext crypto) Block}

theorem Moment.nonceStep
    (hran : moment.part.run (withEoaCode crypto host) fuel stf moment.before =
      .done (moment.result, moment.after))
    (hregistered : Registered account moment.before)
    (hundisturbed : Undisturbed account (moment.trace (withEoaCode crypto host) fuel stf)) :
    NonceStep account (moment.trace (withEoaCode crypto host) fuel stf) moment.before
      moment.after := by
  rw [← BlockPart.exec_traced] at hran
  exact ((keepsNonce_traceRule host account).keeps_part (outside_allPhases account fuel)
    moment.part).done hran hregistered hundisturbed _ rfl

end

/-! ### Whose transactions raise the nonce -/

section

variable (host : Host) (fuel : Nat) {Block : Type}

/-- The moment is the validation of a transaction that resolves to the account and carries an
envelope that names a recipient. -/
def Moment.AsksWithEnvelope (account : AccountId) (moment : Moment (TxContext crypto) Block) :
    Prop :=
  ∃ tx context envelope, moment.part = .validateTx tx context ∧
    Resolves host fuel (Stf.validationFrame tx context) tx account moment.before ∧
    tx.payload = .eoa envelope ∧ envelope.toAddress.isSome

/-- The account keeps its code, its nonce is not written directly, and it authenticates nothing but
a transaction of its own that carries an envelope, when that is validated. -/
structure Moment.Regular (stf : Stf (TxContext crypto) Block) (account : AccountId)
    (moment : Moment (TxContext crypto) Block) : Prop where
  undisturbed : Undisturbed account (moment.trace host fuel stf)
  asked : ∀ action ∈ moment.trace host fuel stf, action.authenticates account = true →
    moment.AsksWithEnvelope host fuel account

/-- The nonce changes only in the validation of a transaction that the owner signed. -/
def Moment.AdvancedByOwner (account : AccountId) (moment : Moment (TxContext crypto) Block) :
    Prop :=
  nonceOf account moment.after ≠ nonceOf account moment.before →
    ∃ tx context envelope, moment.part = .validateTx tx context ∧ tx.payload = .eoa envelope ∧
      envelope.sender = addressOf account moment.before

variable {host fuel} {rlp : RlpEncoder crypto} {stf : Stf (TxContext crypto) Block}
  {account : AccountId} {moment : Moment (TxContext crypto) Block}

theorem Moment.Regular.advancedByOwner
    (hran : moment.part.run (withEoaCode crypto host) fuel (authenticating rlp stf) moment.before =
      .done (moment.result, moment.after))
    (hregistered : Registered account moment.before)
    (h : moment.Regular (withEoaCode crypto host) fuel (authenticating rlp stf) account) :
    moment.AdvancedByOwner account := by
  intro hchanged
  have hasked : moment.AsksWithEnvelope (withEoaCode crypto host) fuel account := by
    by_contra hnot
    refine hchanged ((Moment.nonceStep hran hregistered h.undisturbed).same fun action hmem => ?_)
    exact Bool.eq_false_iff.mpr fun hauth => hnot (h.asked action hmem hauth)
  obtain ⟨tx, context, envelope, hpart, hresolves, hpayload, hrecipient⟩ := hasked
  obtain ⟨part, before, result, after⟩ := moment
  obtain rfl : part = .validateTx tx context := hpart
  refine ⟨tx, context, envelope, rfl, hpayload, ?_⟩
  cases result with
  | error e =>
    -- A validation that fails changes nothing.
    have hsame := (settles_validateTx host fuel _ rlp hresolves hregistered).fails hran
    exact absurd (nonceOf_congr hsame) hchanged
  | ok _ => exact (validateTx_verifies host fuel _ rlp hresolves hregistered hran hpayload
      hrecipient).1

variable [BlockTrait Block (TxContext crypto)]

variable (host fuel rlp stf account) in
/-- For every block, whatever the code of the other accounts: the nonce of an externally owned
account changes only in the validation of a transaction that its owner signed, if in every part of
the block the account keeps its code, its nonce is not written at the direct request of a
transaction, and it is asked to authenticate only by the validation of a transaction of its own that
carries an envelope with a recipient. -/
theorem nonce_advancedByOwner (block : Block) (w : World)
    (hregular : ∀ moment ∈ (Recorded.applyBlock (withEoaCode crypto host) fuel
      (authenticating rlp stf) block).log w, Registered account moment.before →
        moment.Regular (withEoaCode crypto host) fuel (authenticating rlp stf) account) :
    IsHistory (withEoaCode crypto host) fuel (authenticating rlp stf) w
        ((Recorded.applyBlock (withEoaCode crypto host) fuel (authenticating rlp stf) block).log w)
        ((Recorded.applyBlock (withEoaCode crypto host) fuel (authenticating rlp stf)
          block).last w) ∧
      ∀ moment ∈ (Recorded.applyBlock (withEoaCode crypto host) fuel (authenticating rlp stf)
        block).log w, Registered account moment.before → moment.AdvancedByOwner account := by
  refine ⟨isHistory_applyBlock block w, fun moment hmem hregistered => ?_⟩
  have hran := (isHistory_applyBlock block w).ran hmem
  exact (hregular moment hmem hregistered).advancedByOwner hran hregistered

end

/-! ### Blocks of the sample owner -/

instance (account : AccountId) (w : World) : Decidable (Registered account w) :=
  inferInstanceAs (Decidable (_ = _))

def ownerBlock (txs : List Bytes) : ServerBlock (TxContext sampleCrypto) :=
  ⟨1, 0, 1000000, Evnode.ExecutorServiceImpl.decodeTxs sampleCrypto txs⟩

abbrev OwnerMoment := Moment (TxContext sampleCrypto) (ServerBlock (TxContext sampleCrypto))

/-- What is recorded of a block of the given transactions. -/
def ownerMoments (txs : List Bytes) : List OwnerMoment :=
  (Recorded.applyBlock ownerHost 9 (ownerStf _) (ownerBlock txs)).log ownerWorld

namespace OwnerMoment

def resolvesToOwner (tx : TxContext sampleCrypto) (context : BlockContext) (w : World) : Bool :=
  decide (Exec.Ends (tx.resolveSenderAccount.run
    (environment ownerHost 9 (Stf.validationFrame tx context))) (fun r _ => r = .ok ownerAccount) w)

theorem resolves {tx : TxContext sampleCrypto} {context : BlockContext} {w : World}
    (h : resolvesToOwner tx context w = true) :
    Resolves ownerHost 9 (Stf.validationFrame tx context) tx ownerAccount w := by
  obtain ⟨_, w', hrun, rfl⟩ := (of_decide_eq_true h).exists
  exact ⟨w', hrun⟩

def asks (moment : OwnerMoment) : Bool :=
  match moment.part with
  | .validateTx tx context =>
    match tx.payload with
    | .eoa envelope => envelope.toAddress.isSome && resolvesToOwner tx context moment.before
    | .custom _ => false
  | _ => false

variable {moment : OwnerMoment}

theorem asksWithEnvelope (h : asks moment = true) :
    moment.AsksWithEnvelope ownerHost 9 ownerAccount := by
  unfold asks at h
  split at h
  · rename_i tx context hpart
    split at h
    · rename_i envelope hpayload
      obtain ⟨hrecipient, hresolves⟩ := Bool.and_eq_true_iff.mp h
      exact ⟨tx, context, envelope, hpart, resolves hresolves, hpayload, hrecipient⟩
    · cases h
  · cases h

def undisturbed (moment : OwnerMoment) : Bool :=
  (moment.trace ownerHost 9 (ownerStf _)).all fun action =>
    !action.reassigns ownerAccount && !action.overwritesNonce ownerAccount

theorem isUndisturbed (h : undisturbed moment = true) :
    Undisturbed ownerAccount (moment.trace ownerHost 9 (ownerStf _)) := by
  simp only [undisturbed, List.all_eq_true, Bool.and_eq_true, Bool.not_eq_true'] at h
  exact ⟨fun action hmem => (h action hmem).1, fun action hmem => (h action hmem).2⟩

def regular (moment : OwnerMoment) : Bool :=
  undisturbed moment && (moment.trace ownerHost 9 (ownerStf _)).all fun action =>
    !action.authenticates ownerAccount || asks moment

theorem isRegular (h : regular moment = true) :
    moment.Regular ownerHost 9 (ownerStf _) ownerAccount := by
  obtain ⟨hundisturbed, hasked⟩ := Bool.and_eq_true_iff.mp h
  refine ⟨isUndisturbed hundisturbed, fun action hmem hauth => asksWithEnvelope ?_⟩
  simpa [hauth] using List.all_eq_true.mp hasked action hmem

end OwnerMoment

theorem ownerMoments_envelope :
    (ownerMoments [KnownTx.first.bytes]).all OwnerMoment.regular = true ∧
      (ownerMoments [KnownTx.first.bytes]).any (fun moment => decide
        (Registered ownerAccount moment.before ∧ nonceOf ownerAccount moment.before = 0 ∧
        nonceOf ownerAccount moment.after = 1)) = true := by
  decide +kernel

/-- The transaction of the owner raises the nonce. -/
theorem nonce_advancedByOwner_envelope :
    (∃ moment ∈ ownerMoments [KnownTx.first.bytes], Registered ownerAccount moment.before ∧
      nonceOf ownerAccount moment.before = 0 ∧ nonceOf ownerAccount moment.after = 1) ∧
    ∀ moment ∈ ownerMoments [KnownTx.first.bytes], Registered ownerAccount moment.before →
      moment.AdvancedByOwner ownerAccount := by
  obtain ⟨hregular, hraised⟩ := ownerMoments_envelope
  refine ⟨?_, ?_⟩
  · obtain ⟨moment, hmem, h⟩ := List.any_eq_true.mp hraised
    exact ⟨moment, hmem, of_decide_eq_true h⟩
  · unfold ownerMoments ownerHost ownerStf at hregular ⊢
    refine (nonce_advancedByOwner sampleHost 9 ownerRlp (ownerHooks _) ownerAccount
      (ownerBlock [KnownTx.first.bytes]) ownerWorld fun moment hmem _ => ?_).2
    exact OwnerMoment.isRegular (List.all_eq_true.mp hregular moment hmem)

/-! ### A transaction of another account -/

/-- A message of another account that asks the owner's account to authenticate one byte. -/
def meddlerWire : TxContextWireV1 :=
  { directWire with
    invokeRequest := ⟨"authenticate", 2376687436, [1, 0, 0, 0, 1]⟩
    recipientAccount := some ownerAccount }

def BlockPart.isValidation {Tx Block : Type} : BlockPart Tx Block → Bool
  | .validateTx _ _ => true
  | _ => false

theorem ownerMoments_meddler :
    (ownerMoments [wireBytes meddlerWire]).any (fun moment =>
      decide (Registered ownerAccount moment.before ∧
        nonceOf ownerAccount moment.before = 0 ∧ nonceOf ownerAccount moment.after = 1) &&
      !moment.part.isValidation) = true := by
  decide +kernel

/-- The nonce of the owner's account is raised by the execution of a transaction of another
account. -/
theorem meddler_advances_nonce :
    ∃ moment ∈ ownerMoments [wireBytes meddlerWire], Registered ownerAccount moment.before ∧
      nonceOf ownerAccount moment.before = 0 ∧ nonceOf ownerAccount moment.after = 1 ∧
      ¬ moment.AdvancedByOwner ownerAccount := by
  obtain ⟨moment, hmem, h⟩ := List.any_eq_true.mp ownerMoments_meddler
  obtain ⟨hraised, hpart⟩ := Bool.and_eq_true_iff.mp h
  obtain ⟨hregistered, hbefore, hafter⟩ := of_decide_eq_true hraised
  refine ⟨moment, hmem, hregistered, hbefore, hafter, fun hadvanced => ?_⟩
  obtain ⟨tx, context, _, hvalidation, -⟩ := hadvanced (by rw [hbefore, hafter]; decide)
  rw [hvalidation] at hpart
  cases hpart

end Evolve
