import Mathlib
import Evolve.Stf.Atomicity
import Evolve.Stf.Transaction

/-! Account codes and account numbers.  Code identifiers never disappear, and numbers assigned by
the counter are fresh as long as nobody registers an account at a number still to be assigned. -/

namespace Evolve

open Machine Borsh Effects

/-! ### Code identifiers -/

variable {s s' : ExecutionState} {number account : AccountId} {value message : Message}
  {codeId : String}

namespace ExecutionState

/-- The account has an entry for its code identifier. -/
def HasCode (s : ExecutionState) (account : AccountId) : Prop :=
  ∃ message, s.lookup (accountCodeIdentifierKey account) = .ok (some message)

theorem hasCode_congr (h : s'.lookup = s.lookup) (account : AccountId) :
    s'.HasCode account ↔ s.HasCode account := by
  rw [HasCode, HasCode, h]

theorem accountCodeIdentifierKey_inj {a b : AccountId} :
    accountCodeIdentifierKey a = accountCodeIdentifierKey b ↔ a = b := by
  rw [accountCodeIdentifierKey, accountCodeIdentifierKey, List.cons_inj_right,
    AccountId.asBytes_inj]

theorem accountStorageKey_ne_accountCodeIdentifierKey (a b : AccountId) (key : Bytes) :
    Invoker.accountStorageKey a key ≠ accountCodeIdentifierKey b := by
  intro h
  injection h with h _
  exact absurd h (by decide)

theorem accountStorageKey_ne_accountNumberKey (a : AccountId) (key : Bytes) :
    Invoker.accountStorageKey a key ≠ accountNumberKey := by
  intro h
  injection h with h _
  exact absurd h (by decide)

theorem accountNumberKey_ne_accountCodeIdentifierKey (a : AccountId) :
    accountNumberKey ≠ accountCodeIdentifierKey a := by
  intro h
  injection h with h _
  exact absurd h (by decide)

theorem HasCode.set {key : Bytes} (h : s.set key value = .ok s') (hcode : s.HasCode account) :
    s'.HasCode account := by
  obtain ⟨message, hmessage⟩ := hcode
  rw [HasCode, lookup_set h]
  split
  · exact ⟨value, rfl⟩
  · exact ⟨message, hmessage⟩

theorem hasCode_of_set (h : s.set (accountCodeIdentifierKey account) value = .ok s') :
    s'.HasCode account :=
  ⟨value, by rw [lookup_set h, if_pos rfl]⟩

theorem hasCode_set_iff {other : AccountId}
    (h : s.set (accountCodeIdentifierKey account) value = .ok s') (hne : other ≠ account) :
    s'.HasCode other ↔ s.HasCode other := by
  rw [HasCode, HasCode, lookup_set h, if_neg]
  rw [accountCodeIdentifierKey_inj]
  exact hne.symm

theorem hasCode_of_codeIdentifier (h : s.codeIdentifier account = .ok (some codeId)) :
    s.HasCode account := by
  unfold codeIdentifier at h
  split at h
  · cases h
  · rename_i message hmessage
    exact ⟨message, hmessage⟩
  · cases h

theorem not_hasCode_of_codeIdentifier (h : s.codeIdentifier account = .ok none) :
    ¬ s.HasCode account := by
  rintro ⟨message, hmessage⟩
  rw [lookup_of_codeIdentifier_none h] at hmessage
  cases hmessage

end ExecutionState

theorem hasCode_stepRule : StepRule fun w w' =>
    ∀ account, w.storage.HasCode account → w'.storage.HasCode account where
  refl _ _ := id
  trans _ _ _ h₁ h₂ account h := h₂ account (h₁ account h)
  storage w s hstep account hcode := by
    cases hstep with
    | metrics _ => exact hcode
    | nextUniqueObjectId => exact hcode
    | emitEvent h =>
      exact (ExecutionState.hasCode_congr (ExecutionState.lookup_emitEvent h) account).mpr hcode
    | set h => exact hcode.set h
    | remove h =>
      obtain ⟨message, hmessage⟩ := hcode
      refine ⟨message, ?_⟩
      rw [ExecutionState.lookup_remove h,
        if_neg (ExecutionState.accountStorageKey_ne_accountCodeIdentifierKey _ _ _), hmessage]
  charge _ _ _ _ := id
  note _ _ _ := id
  rollback _ _ hext _ account :=
    (ExecutionState.hasCode_congr
      (ExecutionState.SameExceptMetrics.rollback hext).lookup account).mpr

/-! ### How accounts get their code -/

def ExecutionState.nextNumber (s : ExecutionState) : SdkResult AccountId :=
  s.lookup accountNumberKey >>= accountNumber

theorem ExecutionState.nextNumber_set (hmessage : Message.new number = .ok message)
    (h : s.set accountNumberKey message = .ok s') : s'.nextNumber = .ok number := by
  rw [nextNumber, lookup_set h, if_pos rfl]
  exact Message.get_new hmessage

theorem ExecutionState.nextNumber_set_code
    (h : s.set (accountCodeIdentifierKey account) message = .ok s') :
    s'.nextNumber = s.nextNumber := by
  rw [nextNumber, nextNumber, lookup_set h,
    if_neg (accountNumberKey_ne_accountCodeIdentifierKey account).symm]

variable {a b c w w' : World}

theorem wp_claimAccount {Q : SdkResult Unit → World → Prop}
    (ok : ∀ message c s, Message.new codeId = .ok message →
      w.gasCounter.consumeSetGas (accountCodeIdentifierKey account) message = .ok c →
      w.storage.set (accountCodeIdentifierKey account) message = .ok s →
      Q (.ok ()) ⟨s, c, .register w.storage account :: w.history⟩)
    (error : ∀ e c, Q (.error e) { w with gasCounter := c }) :
    Exec.wp (Invoker.claimAccount account codeId) Q w := by
  refine Exec.wp_bind.mpr (Exec.wp_bind.mpr ?_)
  cases hmessage : (Message.new codeId) with
  | error e => exact error e w.gasCounter
  | ok message =>
    refine Exec.wp_bind.mpr (wp_charge (fun c hc => ?_) fun e _ => error e w.gasCounter)
    refine Exec.wp_bind.mpr (wp_update (fun s hs => ?_) fun e _ => error e c)
    exact ok message c s hmessage hc hs

/-- An allocation assigns the counter's number; it fails before the counter moves, or after. -/
theorem wp_allocateAccount {Q : SdkResult AccountId → World → Prop}
    (early : ∀ e, Q (.error e) w.countRead)
    (late : ∀ number message s, w.storage.nextNumber = .ok number →
      Message.new number.increase = .ok message →
      w.storage.countRead.set accountNumberKey message = .ok s →
      ∀ e, Q (.error e) ⟨s, w.gasCounter, .create w.storage number :: w.history⟩)
    (ok : ∀ number message s codeMessage s', w.storage.nextNumber = .ok number →
      Message.new number.increase = .ok message →
      w.storage.countRead.set accountNumberKey message = .ok s →
      s.set (accountCodeIdentifierKey number) codeMessage = .ok s' →
      Q (.ok number) ⟨s', w.gasCounter, .create w.storage number :: w.history⟩) :
    Exec.wp (Invoker.allocateAccount codeId) Q w := by
  refine Exec.wp_bind.mpr (Exec.wp_bind.mpr (Exec.wp_bind.mpr ?_))
  show Exec.after _ _ (w.storage.lookup accountNumberKey) w.countRead
  cases hstored : w.storage.lookup accountNumberKey with
  | error e => exact early e
  | ok stored =>
    refine Exec.wp_bind.mpr ?_
    cases hnumber : accountNumber stored with
    | error e => exact early e
    | ok number =>
      have hnext : w.storage.nextNumber = .ok number := by
        rw [ExecutionState.nextNumber, hstored]
        exact hnumber
      refine Exec.wp_bind.mpr ?_
      cases hmessage : Message.new number.increase with
      | error e => exact early e
      | ok message =>
        refine Exec.wp_bind.mpr (wp_update (fun s hs => ?_) fun e _ => early e)
        refine Exec.wp_bind.mpr (Exec.wp_bind.mpr (Exec.wp_bind.mpr ?_))
        cases hcode : Message.new codeId with
        | error e => exact late number message s hnext hmessage hs e
        | ok codeMessage =>
          refine wp_update (fun s' hs' => ?_) fun e _ => late number message s hnext hmessage hs e
          exact ok number message s codeMessage s' hnext hmessage hs hs'

theorem wp_switchCode {host : Host} {Q : SdkResult Unit → World → Prop}
    (error : ∀ e, Q (.error e) w.countRead) (ok : ∀ message s, w.storage.HasCode account →
      w.storage.countRead.set (accountCodeIdentifierKey account) message = .ok s →
      Q (.ok ()) ⟨s, w.gasCounter, .migrate w.storage.countRead account :: w.history⟩) :
    Exec.wp (Invoker.switchCode host account codeId) Q w := by
  refine Exec.wp_bind.mpr (wp_getAccountCodeIdentifierForAccount.mpr ?_)
  cases hfound : w.storage.codeIdentifier account with
  | error e => exact error e
  | ok found =>
    cases found with
    | none => exact error _
    | some current =>
      refine Exec.wp_bind.mpr ?_
      cases hcode : host.withCode codeId with
      | error e => exact error e
      | ok code =>
        show Exec.wp (ite _ _ _) _ _
        split
        · exact error _
        · split
          · exact error _
          · refine Exec.wp_bind.mpr (Exec.wp_bind.mpr (Exec.wp_bind.mpr ?_))
            cases hmessage : Message.new codeId with
            | error e => exact error e
            | ok message =>
              refine wp_update (fun s hs => ?_) fun e _ => error e
              exact ok message s (ExecutionState.hasCode_of_codeIdentifier hfound) hs

/-! ### Fresh numbers -/

namespace ExecutionState

structure SameAccounts (s s' : ExecutionState) : Prop where
  number : s'.lookup accountNumberKey = s.lookup accountNumberKey
  code : ∀ account, s'.lookup (accountCodeIdentifierKey account) =
    s.lookup (accountCodeIdentifierKey account)

theorem SameAccounts.of_lookup (h : s'.lookup = s.lookup) :
    SameAccounts s s' :=
  ⟨congrFun h _, fun _ => congrFun h _⟩

/-- No account has a code identifier whose number the counter assigns before it reaches
`bound`. -/
def Fresh (bound : Nat) (s : ExecutionState) : Prop :=
  ∀ number account, s.nextNumber = .ok number → number.toNat ≤ account.toNat →
    account.toNat < bound → ¬ s.HasCode account

theorem Fresh.of_sameAccounts {bound : Nat} (h : SameAccounts s s') (hfresh : s.Fresh bound) :
    s'.Fresh bound := by
  intro number account hnumber hle hlt hcode
  rw [nextNumber, h.number] at hnumber
  rw [HasCode, h.code] at hcode
  exact hfresh number account hnumber hle hlt hcode

/-- The counter has passed the account's number.  It assigns none while it cannot be read. -/
def hasPassed (s : ExecutionState) (account : AccountId) : Bool :=
  match s.nextNumber with
  | .ok number => account.toNat < number.toNat
  | .error _ => true

theorem Fresh.set {bound : Nat} (h : s.set (accountCodeIdentifierKey account) value = .ok s')
    (hfresh : s.Fresh bound)
    (hclear : ∀ number, s.nextNumber = .ok number → number.toNat ≤ account.toNat →
      bound ≤ account.toNat) : s'.Fresh bound := by
  intro number other hnumber hle hlt
  rw [nextNumber_set_code h] at hnumber
  have hne : other ≠ account := by
    rintro rfl
    exact absurd (hclear number hnumber hle) (by omega)
  rw [hasCode_set_iff h hne]
  exact hfresh number other hnumber hle hlt

theorem Fresh.advance {bound : Nat} (hbound : bound < 256 ^ 32) (hnext : s.nextNumber = .ok number)
    (hmessage : Message.new number.increase = .ok message)
    (h : s.set accountNumberKey message = .ok s') (hlt : number.toNat < bound)
    (hfresh : s.Fresh bound) : s'.nextNumber = .ok number.increase ∧ s'.Fresh bound := by
  have hnext' := nextNumber_set hmessage h
  refine ⟨hnext', fun number' account hnumber' hle hlt' hcode => ?_⟩
  cases hnext'.symm.trans hnumber'
  rw [AccountId.toNat_increase, Nat.mod_eq_of_lt (by omega)] at hle
  obtain ⟨codeId, hcode⟩ := hcode
  rw [lookup_set h, if_neg (accountNumberKey_ne_accountCodeIdentifierKey account)] at hcode
  exact hfresh number account hnext (by omega) hlt' ⟨codeId, hcode⟩

end ExecutionState

namespace AccountOp

/-- What keeps the two ways of choosing a number apart: the counter has not reached `bound`, and
accounts are registered at numbers that it has passed or that lie past `bound`. -/
def Clear (bound : Nat) : AccountOp → Prop
  | create _ account => account.toNat < bound
  | register before account => bound ≤ account.toNat ∨ before.hasPassed account
  | migrate _ _ => True

instance {bound : Nat} : DecidablePred (Clear bound)
  | create _ account => inferInstanceAs (Decidable (account.toNat < bound))
  | register before account =>
    inferInstanceAs (Decidable (bound ≤ account.toNat ∨ before.hasPassed account))
  | migrate _ _ => inferInstanceAs (Decidable True)

def TakesNewNumber : AccountOp → Prop
  | create before account => ¬ before.HasCode account
  | register _ _ => True
  | migrate _ _ => True

end AccountOp

/-- If all account operations between two worlds are clear, then all creations among them take new
numbers, and fresh numbers stay fresh. -/
def World.KeepsFresh (bound : Nat) (w w' : World) : Prop :=
  ∃ ops, w'.history = ops ++ w.history ∧ ((∀ op ∈ ops, op.Clear bound) → w.storage.Fresh bound →
    w'.storage.Fresh bound ∧ ∀ op ∈ ops, op.TakesNewNumber)

namespace World.KeepsFresh

variable {bound : Nat}

theorem of_sameAccounts (h : w.storage.SameAccounts w'.storage)
    (hhistory : w'.history = w.history) : KeepsFresh bound w w' :=
  ⟨[], hhistory, fun _ hfresh => ⟨hfresh.of_sameAccounts h, by simp⟩⟩

theorem refl (w : World) : KeepsFresh bound w w := of_sameAccounts (.of_lookup rfl) rfl

theorem trans (h₁ : KeepsFresh bound a b) (h₂ : KeepsFresh bound b c) : KeepsFresh bound a c := by
  obtain ⟨ops₁, hops₁, h₁⟩ := h₁
  obtain ⟨ops₂, hops₂, h₂⟩ := h₂
  refine ⟨ops₂ ++ ops₁, by rw [hops₂, hops₁, List.append_assoc], fun hclear hfresh => ?_⟩
  rw [List.forall_mem_append] at hclear ⊢
  obtain ⟨hfresh₁, hnew₁⟩ := h₁ hclear.2 hfresh
  obtain ⟨hfresh₂, hnew₂⟩ := h₂ hclear.1 hfresh₁
  exact ⟨hfresh₂, hnew₂, hnew₁⟩

theorem single {op : AccountOp} (hhistory : w'.history = op :: w.history)
    (h : op.Clear bound → w.storage.Fresh bound → w'.storage.Fresh bound ∧ op.TakesNewNumber) :
    KeepsFresh bound w w' := by
  refine ⟨[op], hhistory, fun hclear hfresh => ?_⟩
  simpa using h (by simpa using hclear) hfresh

end World.KeepsFresh

theorem ExecutionState.SameAccounts.set {key : Bytes}
    (h : s.set (Invoker.accountStorageKey account key) value = .ok s') : SameAccounts s s' := by
  constructor
  · rw [lookup_set h, if_neg (accountStorageKey_ne_accountNumberKey _ _)]
  · intro other
    rw [lookup_set h, if_neg (accountStorageKey_ne_accountCodeIdentifierKey _ _ _)]

theorem ExecutionState.SameAccounts.remove {key : Bytes}
    (h : s.remove (Invoker.accountStorageKey account key) = .ok s') : SameAccounts s s' := by
  constructor
  · rw [lookup_remove h, if_neg (accountStorageKey_ne_accountNumberKey _ _)]
  · intro other
    rw [lookup_remove h, if_neg (accountStorageKey_ne_accountCodeIdentifierKey _ _ _)]

theorem keepsFresh_allocateAccount {bound : Nat} (hbound : bound < 256 ^ 32) (codeId : String) :
    Exec.Keeps (World.KeepsFresh bound) (Invoker.allocateAccount codeId) := by
  intro w
  have hread : w.storage.SameAccounts w.storage.countRead := .of_lookup rfl
  refine wp_allocateAccount (fun e => .of_sameAccounts hread rfl) ?_ ?_
  · intro number message s hnext hmessage hs e
    have hnextRead : w.storage.countRead.nextNumber = .ok number := hnext
    refine .single rfl fun hclear hfresh => ?_
    exact ⟨((hfresh.of_sameAccounts hread).advance hbound hnextRead hmessage hs hclear).2,
      hfresh number number hnext le_rfl hclear⟩
  · intro number message s codeMessage s' hnext hmessage hs hs'
    have hnextRead : w.storage.countRead.nextNumber = .ok number := hnext
    refine .single rfl fun hclear hfresh => ⟨?_, hfresh number number hnext le_rfl hclear⟩
    obtain ⟨hnext', hfresh'⟩ :=
      (hfresh.of_sameAccounts hread).advance hbound hnextRead hmessage hs hclear
    -- The new account's number is the one that the counter has just passed.
    refine hfresh'.set hs' fun number' hnumber' hle => ?_
    cases hnext'.symm.trans hnumber'
    have hlt : number.toNat < bound := hclear
    rw [AccountId.toNat_increase, Nat.mod_eq_of_lt (by omega)] at hle
    omega

theorem keepsFresh_claimAccount {bound : Nat} (account : AccountId) (codeId : String) :
    Exec.Keeps (World.KeepsFresh bound) (Invoker.claimAccount account codeId) := by
  intro w
  refine wp_claimAccount ?_ fun e c => .of_sameAccounts (.of_lookup rfl) rfl
  intro message c s _ _ hs
  refine .single rfl fun hclear hfresh => ⟨hfresh.set hs fun number hnumber hle => ?_, trivial⟩
  rcases hclear with hclear | hpassed
  · exact hclear
  · rw [ExecutionState.hasPassed, hnumber, decide_eq_true_eq] at hpassed
    omega

theorem keepsFresh_switchCode {bound : Nat} (host : Host) (account : AccountId)
    (codeId : String) :
    Exec.Keeps (World.KeepsFresh bound) (Invoker.switchCode host account codeId) := by
  intro w
  refine wp_switchCode (fun e => .of_sameAccounts (.of_lookup rfl) rfl) ?_
  intro message s hcode hs
  refine .single rfl fun _ hfresh => ⟨?_, trivial⟩
  refine (hfresh.of_sameAccounts (.of_lookup rfl)).set hs fun number hnumber hle => ?_
  by_contra hlt
  exact hfresh number account hnumber hle (by omega) hcode

theorem keepsFresh_callRule {bound : Nat} (hbound : bound < 256 ^ 32) (host : Host) :
    CallRule host (World.KeepsFresh bound) where
  refl := .refl
  trans _ _ _ := .trans
  countRead _ := .of_sameAccounts (.of_lookup rfl) rfl
  charge _ _ w := wp_charge (fun _ _ => .of_sameAccounts (.of_lookup rfl) rfl) fun _ _ => .refl w
  checkpoint _ := .of_sameAccounts (.of_lookup rfl) rfl
  nextUniqueObjectId _ := .of_sameAccounts (.of_lookup rfl) rfl
  emitEvent _ w := wp_update
    (fun _ h => .of_sameAccounts (.of_lookup (ExecutionState.lookup_emitEvent h)) rfl)
    fun _ _ => .refl w
  set _ _ _ w := wp_update (fun _ h => .of_sameAccounts (.set h) rfl) fun _ _ => .refl w
  remove _ _ w := wp_update (fun _ h => .of_sameAccounts (.remove h) rfl) fun _ _ => .refl w
  allocateAccount := keepsFresh_allocateAccount hbound
  claimAccount account codeId w _ := keepsFresh_claimAccount account codeId w
  switchCode := keepsFresh_switchCode host
  rollback w w' hext h := by
    obtain ⟨ops, hops, h⟩ := h
    refine ⟨ops, hops, fun hclear hfresh => ⟨?_, (h hclear hfresh).2⟩⟩
    exact hfresh.of_sameAccounts
      (.of_lookup (ExecutionState.SameExceptMetrics.rollback hext).lookup)

/-- In every block, if the counter does not reach `bound` and no account is registered at a number
that the counter would assign before that, then every account creation, whatever code issues it
and whether or not it is rolled back later, takes a number without a code identifier, and the same
holds from the state after the block on. -/
theorem applyBlock_creations_take_new_numbers {Tx Block : Type} [Transaction Tx]
    [BlockTrait Block Tx] (host : Host) (fuel : Nat) (stf : Stf Tx Block) (block : Block)
    {bound : Nat} (hbound : bound < 256 ^ 32) {w w' : World} {r : SdkResult (BlockResult × List Tx)}
    (hrun : Stf.applyBlock host fuel stf block w = .done (r, w'))
    (hfresh : w.storage.Fresh bound) {ops : List AccountOp}
    (hops : w'.history = ops ++ w.history) (hclear : ∀ op ∈ ops, op.Clear bound) :
    (∀ op ∈ ops, op.TakesNewNumber) ∧ w'.storage.Fresh bound := by
  have hkeeps : Exec.Keeps (World.KeepsFresh bound) (Stf.applyBlock host fuel stf block) :=
    Stf.keeps_applyBlock fuel (keepsFresh_callRule hbound host)
      (fun _ => .of_sameAccounts (.of_lookup rfl) rfl)
      (fun _ _ => .of_sameAccounts (.of_lookup rfl) rfl) block
  obtain ⟨ops', hops', h⟩ := Exec.wp_done (hkeeps w) hrun
  rw [hops, List.append_cancel_right_eq] at hops'
  subst hops'
  exact (h hclear hfresh).symm

/-! ### The counter -/

theorem AccountId.toNat_iterate_increase (a : AccountId) (n : Nat) :
    (increase^[n] a).toNat = (a.toNat + n) % 256 ^ 32 := by
  induction n with
  | zero => exact (Nat.mod_eq_of_lt a.bytes.toNat_lt).symm
  | succ n ih =>
    rw [Function.iterate_succ_apply', toNat_increase, ih, Nat.mod_add_mod, Nat.add_assoc]

/-- The counter of account numbers moves on, by at most one for each account operation. -/
def World.Advances (w w' : World) : Prop :=
  ∀ number, w.storage.nextNumber = .ok number →
    ∃ k, w'.storage.nextNumber = .ok (AccountId.increase^[k] number) ∧
      w.history.length + k ≤ w'.history.length

namespace World.Advances

theorem of_sameAccounts (h : w.storage.SameAccounts w'.storage)
    (hhistory : w.history.length ≤ w'.history.length) : Advances w w' := by
  intro number hnumber
  refine ⟨0, ?_, hhistory⟩
  rw [ExecutionState.nextNumber, h.number]
  exact hnumber

theorem refl (w : World) : Advances w w := of_sameAccounts (.of_lookup rfl) le_rfl

theorem trans (h₁ : Advances a b) (h₂ : Advances b c) : Advances a c := by
  intro number hnumber
  obtain ⟨k, hb, hle⟩ := h₁ number hnumber
  obtain ⟨l, hc, hle'⟩ := h₂ _ hb
  refine ⟨l + k, ?_, by omega⟩
  rw [Function.iterate_add_apply]
  exact hc

end World.Advances

theorem wp_allocateAccount_advances :
    Exec.wp (Invoker.allocateAccount codeId) (fun r w' => w.Advances w' ∧
      ∀ number, r = .ok number → w.storage.nextNumber = .ok number ∧
        w'.storage.nextNumber = .ok number.increase ∧
        w'.history.length = w.history.length + 1) w := by
  have moved : ∀ {number : AccountId} {s : ExecutionState} {op : AccountOp} {gasCounter},
      w.storage.nextNumber = .ok number → s.nextNumber = .ok number.increase →
      w.Advances ⟨s, gasCounter, op :: w.history⟩ := by
    intro number s op gasCounter hnext hmoved other hother
    cases hnext.symm.trans hother
    exact ⟨1, hmoved, le_rfl⟩
  refine wp_allocateAccount (fun e => ?_) ?_ ?_
  · exact ⟨.of_sameAccounts (.of_lookup rfl) le_rfl, nofun⟩
  · intro number message s hnext hmessage hs e
    exact ⟨moved hnext (ExecutionState.nextNumber_set hmessage hs), nofun⟩
  · intro number message s codeMessage s' hnext hmessage hs hs'
    have hmoved : s'.nextNumber = .ok number.increase := by
      rw [ExecutionState.nextNumber_set_code hs', ExecutionState.nextNumber_set hmessage hs]
    refine ⟨moved hnext hmoved, ?_⟩
    rintro _ ⟨⟩
    exact ⟨hnext, hmoved, rfl⟩

theorem advances_callRule (host : Host) : CallRule host World.Advances where
  refl := .refl
  trans _ _ _ := .trans
  countRead _ := .of_sameAccounts (.of_lookup rfl) le_rfl
  charge _ _ w :=
    wp_charge (fun _ _ => .of_sameAccounts (.of_lookup rfl) le_rfl) fun _ _ => .refl w
  checkpoint _ := .of_sameAccounts (.of_lookup rfl) le_rfl
  nextUniqueObjectId _ := .of_sameAccounts (.of_lookup rfl) le_rfl
  emitEvent _ w := wp_update
    (fun _ h => .of_sameAccounts (.of_lookup (ExecutionState.lookup_emitEvent h)) le_rfl)
    fun _ _ => .refl w
  set _ _ _ w := wp_update (fun _ h => .of_sameAccounts (.set h) le_rfl) fun _ _ => .refl w
  remove _ _ w := wp_update (fun _ h => .of_sameAccounts (.remove h) le_rfl) fun _ _ => .refl w
  allocateAccount _ _ := Exec.wp_mono (fun _ _ h => h.1) wp_allocateAccount_advances
  claimAccount account codeId w _ := by
    refine wp_claimAccount ?_ fun e c => .of_sameAccounts (.of_lookup rfl) le_rfl
    intro message c s _ _ hs number hnumber
    refine ⟨0, ?_, Nat.le_succ _⟩
    rw [ExecutionState.nextNumber_set_code hs]
    exact hnumber
  switchCode account codeId w := by
    refine wp_switchCode (fun e => .of_sameAccounts (.of_lookup rfl) le_rfl) ?_
    intro message s _ hs number hnumber
    refine ⟨0, ?_, Nat.le_succ _⟩
    rw [ExecutionState.nextNumber_set_code hs]
    exact hnumber
  rollback w w' hext h := by
    intro number hnumber
    obtain ⟨k, -, hle⟩ := h number hnumber
    have hsame : w.storage.SameAccounts (w.rollback w').storage :=
      .of_lookup (ExecutionState.SameExceptMetrics.rollback hext).lookup
    exact World.Advances.of_sameAccounts hsame (Nat.le_of_add_right_le hle) number hnumber

/-! ### Creations at new numbers and at taken ones -/

def createProgram (codeId : String) : Program AccountId := do
  let request ← Prog.ofExcept (InvokeRequest.new (CreateAccountRequest.mk codeId []))
  let response ← Prog.request (EnvOp.doExec runtimeAccountId request [])
  let created : CreateAccountResponse ← Prog.ofExcept response.get
  pure created.newAccountId

def registerProgram (account : AccountId) (codeId : String) : Program Unit := do
  let request ← Prog.ofExcept (InvokeRequest.new (RegisterAccountAtIdRequest.mk account codeId []))
  let _ ← Prog.request (EnvOp.doExec runtimeAccountId request [])

def emptyBlock : TestBlock := ⟨⟨1, 0⟩, [], 0⟩

def emptyWorld : World := ⟨.new fun _ => .ok none, .infinite, []⟩

/-- Creations, and registrations at a number that the counter has passed and at one past 70000. -/
def settlingStf : Stf TestTx TestBlock :=
  { testStf with beginBlock := fun _ _ => do
      let _ ← createProgram "idle"
      registerProgram (.fromU64 300) "recording"
      registerProgram (.fromU64 80000) "recording"
      let _ ← createProgram "recording" }

/-- Accounts below the counter and past 70000. -/
def settledStore : ReadonlyKV := fun key =>
  if key = accountCodeIdentifierKey (.fromU64 10) then (Message.new "idle").map some
  else if key = accountCodeIdentifierKey (.fromU64 70005) then (Message.new "idle").map some
  else .ok none

def settledWorld : World := ⟨.new settledStore, .infinite, []⟩

theorem settledWorld_fresh : settledWorld.storage.Fresh 70000 := by
  rintro number account hnumber hle hlt ⟨message, hmessage⟩
  cases (show settledWorld.storage.nextNumber = .ok (.fromU64 65535) by decide +kernel).symm.trans
    hnumber
  replace hmessage :
      settledStore (accountCodeIdentifierKey account) = .ok (some message) := hmessage
  unfold settledStore at hmessage
  split at hmessage
  · rename_i hkey
    cases ExecutionState.accountCodeIdentifierKey_inj.mp hkey
    exact absurd hle (by decide)
  · split at hmessage
    · rename_i hkey
      cases ExecutionState.accountCodeIdentifierKey_inj.mp hkey
      exact absurd hlt (by decide)
    · cases hmessage

theorem settlingStf_ends :
    Exec.Ends (Stf.applyBlock sampleHost 2 settlingStf emptyBlock)
      (fun _ w' => w'.history.length = 4 ∧ ∀ op ∈ w'.history, op.Clear 70000) settledWorld := by
  decide +kernel

/-- The two creations take the numbers 65535 and 65536. -/
theorem applyBlock_creations_take_new_numbers_settled :
    ∃ r w', Stf.applyBlock sampleHost 2 settlingStf emptyBlock settledWorld = .done (r, w') ∧
      w'.history.length = 4 ∧ (∀ op ∈ w'.history, op.TakesNewNumber) ∧
      w'.storage.Fresh 70000 := by
  obtain ⟨r, w', hrun, hlength, hclear⟩ := settlingStf_ends.exists
  exact ⟨r, w', hrun, hlength, applyBlock_creations_take_new_numbers sampleHost 2 settlingStf
    emptyBlock (by decide) hrun settledWorld_fresh (List.append_nil _).symm hclear⟩

/-- Code that registers an account at the number that the counter assigns first, and then has an
account created. -/
def registerThenCreate : Program AccountId := do
  registerProgram (.fromU64 65535) "recording"
  createProgram "idle"

def World.lastCreation (w : World) : Option (ExecutionState × AccountId) :=
  match w.history with
  | .create before account :: _ => some (before, account)
  | _ => none

theorem registerThenCreate_ends :
    Exec.Ends (registerThenCreate.run (environment sampleHost 2 (.newForBeginBlock ⟨1, 0⟩)))
      (fun r w' => r = .ok (.fromU64 65535) ∧
        (w'.lastCreation.map fun p => (p.2, p.1.codeIdentifier p.2)) =
          some (.fromU64 65535, .ok (some "recording")) ∧
        w'.storage.codeIdentifier (.fromU64 65535) = .ok (some "idle")) emptyWorld := by
  decide +kernel

/-- The creation returns the account that was registered before it and replaces its code. -/
theorem create_replaces_registered_account :
    ∃ w' before, registerThenCreate.run (environment sampleHost 2 (.newForBeginBlock ⟨1, 0⟩))
        emptyWorld = .done (.ok (.fromU64 65535), w') ∧
      w'.lastCreation = some (before, .fromU64 65535) ∧
      before.codeIdentifier (.fromU64 65535) = .ok (some "recording") ∧
      w'.storage.codeIdentifier (.fromU64 65535) = .ok (some "idle") := by
  obtain ⟨_, w', hrun, rfl, hlast, hafter⟩ := registerThenCreate_ends.exists
  obtain ⟨⟨before, account⟩, hcreation, hbefore⟩ := Option.map_eq_some_iff.mp hlast
  obtain ⟨rfl, hcode⟩ := Prod.mk.inj hbefore
  exact ⟨w', before, hrun, hcreation, hcode, hafter⟩

end Evolve
