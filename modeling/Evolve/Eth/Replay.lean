import Mathlib
import Evolve.Eth.Nonce

/-! Replay protection: over every history of blocks the nonce of an externally owned account never
decreases, and no two of the transactions that the account has validated have the same nonce. -/

namespace Evolve

open Machine Borsh Effects Eth EthEoaAccount

variable {crypto : Crypto}

/-! ### Nonces over a history -/

section

variable {host : Host} {fuel : Nat} {Block : Type} {stf : Stf (TxContext crypto) Block}
  {account : AccountId}

/-- The nonces that are observed before and after the parts of a history never decrease. -/
structure NoncesOrdered (account : AccountId) (w : World)
    (moments : List (Moment (TxContext crypto) Block)) : Prop where
  start : ∀ moment ∈ moments, nonceOf account w ≤ nonceOf account moment.before
  step : ∀ moment ∈ moments, nonceOf account moment.before ≤ nonceOf account moment.after
  between : moments.Pairwise fun m m' => nonceOf account m.after ≤ nonceOf account m'.before

variable {moments : List (Moment (TxContext crypto) Block)}

theorem NoncesOrdered.cons {w : World} {moment : Moment (TxContext crypto) Block}
    (hstart : nonceOf account moment.before = nonceOf account w)
    (hstep : nonceOf account moment.before ≤ nonceOf account moment.after)
    (h : NoncesOrdered account moment.after moments) :
    NoncesOrdered account w (moment :: moments) where
  start := by
    refine List.forall_mem_cons.mpr ⟨UInt64.le_of_eq hstart.symm, fun m hm => ?_⟩
    rw [← hstart]
    exact UInt64.le_trans hstep (h.start m hm)
  step := List.forall_mem_cons.mpr ⟨hstep, h.step⟩
  between := List.pairwise_cons.mpr ⟨h.start, h.between⟩

theorem IsHistory.noncesOrdered {w : World} {last : Option World}
    (h : IsHistory (withEoaCode crypto host) fuel stf w moments last)
    (hregistered : Registered account w) (hundisturbed : ∀ moment ∈ moments,
      Undisturbed account (moment.trace (withEoaCode crypto host) fuel stf)) :
    NoncesOrdered account w moments ∧ ∀ moment ∈ moments, Registered account moment.before := by
  induction moments generalizing w with
  | nil => exact ⟨⟨by simp, by simp, .nil⟩, by simp⟩
  | cons moment moments ih =>
    obtain ⟨hsame, hran, hrest⟩ := h
    obtain ⟨hfirst, hundisturbed⟩ := List.forall_mem_cons.mp hundisturbed
    have hbefore := (registered_congr hsame).mpr hregistered
    have hstep := Moment.nonceStep hran hbefore hfirst
    obtain ⟨hordered, hregistered⟩ := ih hrest hstep.registered hundisturbed
    exact ⟨hordered.cons (nonceOf_congr hsame) hstep.le,
      List.forall_mem_cons.mpr ⟨hbefore, hregistered⟩⟩

variable (host fuel) in
/-- The moment is the validation, for the account, of the transaction that the envelope holds, and
it succeeds. -/
inductive Moment.Validates (account : AccountId) (envelope : TxEnvelope crypto) :
    Moment (TxContext crypto) Block → Prop
  | mk {tx : TxContext crypto} {context : BlockContext} {w w' : World}
      (payload : tx.payload = .eoa envelope)
      (resolves : Resolves host fuel (Stf.validationFrame tx context) tx account w) :
      Validates account envelope ⟨.validateTx tx context, w, .ok (), w'⟩

variable (host fuel) in
/-- Nonces never decrease, and no two validated transactions have the same nonce. -/
structure ReplayProtected (account : AccountId) (w : World)
    (moments : List (Moment (TxContext crypto) Block)) : Prop where
  ordered : NoncesOrdered account w moments
  current : ∀ moment ∈ moments, ∀ envelope, moment.Validates host fuel account envelope →
    envelope.nonce = nonceOf account moment.before
  distinct : moments.Pairwise fun m m' => ∀ envelope envelope',
    m.Validates host fuel account envelope → m'.Validates host fuel account envelope' →
    envelope.nonce ≠ envelope'.nonce

variable (host fuel) in
/-- If an envelope is to be validated for the account, it names a recipient. -/
def Moment.NamesRecipient (account : AccountId) (moment : Moment (TxContext crypto) Block) : Prop :=
  ∀ tx context envelope, moment.part = .validateTx tx context →
    Resolves host fuel (Stf.validationFrame tx context) tx account moment.before →
    tx.payload = .eoa envelope → envelope.toAddress.isSome

variable {rlp : RlpEncoder crypto}

theorem Moment.Validates.nonce {envelope : TxEnvelope crypto}
    {moment : Moment (TxContext crypto) Block}
    (h : moment.Validates (withEoaCode crypto host) fuel account envelope)
    (hran : moment.part.run (withEoaCode crypto host) fuel (authenticating rlp stf) moment.before =
      .done (moment.result, moment.after))
    (hregistered : Registered account moment.before)
    (hrecipient : moment.NamesRecipient (withEoaCode crypto host) fuel account) :
    envelope.nonce = nonceOf account moment.before ∧
      nonceOf account moment.before < nonceOf account moment.after := by
  cases h with
  | mk hpayload hresolves =>
    obtain ⟨-, hnonce, hraises⟩ := validateTx_verifies host fuel _ rlp hresolves hregistered hran
      hpayload (hrecipient _ _ _ rfl hresolves hpayload)
    refine ⟨hnonce, ?_⟩
    rw [UInt64.lt_iff_toNat_lt, hraises.nonceOf]
    exact Nat.lt_succ_self _

theorem IsHistory.replayProtected {w : World} {last : Option World}
    (h : IsHistory (withEoaCode crypto host) fuel (authenticating rlp stf) w moments last)
    (hregistered : Registered account w) (hundisturbed : ∀ moment ∈ moments, Undisturbed account
      (moment.trace (withEoaCode crypto host) fuel (authenticating rlp stf)))
    (hrecipients : ∀ moment ∈ moments,
      moment.NamesRecipient (withEoaCode crypto host) fuel account) :
    ReplayProtected (withEoaCode crypto host) fuel account w moments := by
  obtain ⟨hordered, hregistered⟩ := h.noncesOrdered hregistered hundisturbed
  have hvalidates : ∀ moment ∈ moments, ∀ envelope,
      moment.Validates (withEoaCode crypto host) fuel account envelope →
      envelope.nonce = nonceOf account moment.before ∧
        nonceOf account moment.before < nonceOf account moment.after :=
    fun moment hmem envelope hvalid =>
      hvalid.nonce (h.ran hmem) (hregistered moment hmem) (hrecipients moment hmem)
  refine ⟨hordered, fun moment hmem envelope hvalid => (hvalidates moment hmem envelope hvalid).1,
    hordered.between.imp_of_mem fun {m m'} hmem hmem' hle envelope envelope' hvalid hvalid' => ?_⟩
  -- The nonce of the first is stored before it, and has been passed when the second comes.
  obtain ⟨hnonce, hraised⟩ := hvalidates m hmem envelope hvalid
  obtain ⟨hnonce', -⟩ := hvalidates m' hmem' envelope' hvalid'
  rw [hnonce, hnonce']
  exact UInt64.ne_of_lt (UInt64.lt_of_lt_of_le hraised hle)

variable [BlockTrait Block (TxContext crypto)]

variable (host fuel rlp stf account) in
/-- For every history of blocks, whatever the code of the other accounts: the nonce of an externally
owned account that keeps its code never decreases, and the validated transactions of the account
have the nonces that are stored when they are validated, no two the same, if the nonce is not
written at the direct request of a transaction and every envelope that is to be validated for the
account names a recipient. -/
theorem replayProtected_applyBlocks (blocks : List Block) (w : World)
    (hregistered : Registered account w)
    (hundisturbed : ∀ moment ∈ (Recorded.applyBlocks (withEoaCode crypto host) fuel
      (authenticating rlp stf) blocks).log w,
        Undisturbed account (moment.trace (withEoaCode crypto host) fuel (authenticating rlp stf)))
    (hrecipients : ∀ moment ∈ (Recorded.applyBlocks (withEoaCode crypto host) fuel
      (authenticating rlp stf) blocks).log w,
        moment.NamesRecipient (withEoaCode crypto host) fuel account) :
    ReplayProtected (withEoaCode crypto host) fuel account w
      ((Recorded.applyBlocks (withEoaCode crypto host) fuel (authenticating rlp stf)
        blocks).log w) :=
  (isHistory_applyBlocks blocks w).replayProtected hregistered hundisturbed hrecipients

end

/-! ### Histories of the sample owner -/

/-- What is recorded of blocks of the given transactions. -/
def ownerHistory (blocks : List (List Bytes)) : List OwnerMoment :=
  (Recorded.applyBlocks ownerHost 9 (ownerStf _) (blocks.map ownerBlock)).log ownerWorld

namespace OwnerMoment

/-- The signed nonce of a transaction that is validated for the owner. -/
def validatedNonce : OwnerMoment → Option UInt64
  | ⟨.validateTx tx context, w, .ok (), _⟩ =>
    match tx.payload with
    | .eoa envelope => if resolvesToOwner tx context w then some envelope.nonce else none
    | .custom _ => none
  | _ => none

theorem validates {moment : OwnerMoment} {nonce : UInt64} (h : validatedNonce moment = some nonce) :
    ∃ envelope, moment.Validates ownerHost 9 ownerAccount envelope ∧ envelope.nonce = nonce := by
  unfold validatedNonce at h
  split at h
  · rename_i tx context w w'
    split at h
    · rename_i envelope hpayload
      split at h
      · rename_i hresolves
        cases h
        exact ⟨envelope, .mk hpayload (resolves hresolves), rfl⟩
      · cases h
    · cases h
  · cases h

def namesRecipient (moment : OwnerMoment) : Bool :=
  match moment.part with
  | .validateTx tx _ =>
    match tx.payload with
    | .eoa envelope => envelope.toAddress.isSome
    | .custom _ => true
  | _ => true

theorem isNamesRecipient {moment : OwnerMoment} (h : namesRecipient moment = true) :
    moment.NamesRecipient ownerHost 9 ownerAccount := by
  intro tx context envelope hpart _ hpayload
  unfold namesRecipient at h
  rw [hpart] at h
  dsimp only at h
  rw [hpayload] at h
  exact h

end OwnerMoment

/-- Two transactions of the owner, in two blocks. -/
def twoTransactions : List OwnerMoment :=
  ownerHistory [[KnownTx.first.bytes], [KnownTx.second.bytes]]

theorem twoTransactions_validates :
    twoTransactions.all (fun moment =>
        OwnerMoment.undisturbed moment && OwnerMoment.namesRecipient moment) = true ∧
      twoTransactions.filterMap OwnerMoment.validatedNonce = [0, 1] := by
  decide +kernel

theorem replayProtected_envelopes :
    twoTransactions.filterMap OwnerMoment.validatedNonce = [0, 1] ∧
      ReplayProtected ownerHost 9 ownerAccount ownerWorld twoTransactions := by
  obtain ⟨hall, hnonces⟩ := twoTransactions_validates
  refine ⟨hnonces, ?_⟩
  unfold twoTransactions ownerHistory ownerHost ownerStf at hall ⊢
  refine replayProtected_applyBlocks sampleHost 9 (ownerHooks _) ownerAccount ownerRlp _ ownerWorld
    registered_ownerAccount (fun moment hmem => ?_) fun moment hmem => ?_
  · exact OwnerMoment.isUndisturbed
      (Bool.and_eq_true_iff.mp (List.all_eq_true.mp hall moment hmem)).1
  · exact OwnerMoment.isNamesRecipient
      (Bool.and_eq_true_iff.mp (List.all_eq_true.mp hall moment hmem)).2

/-! ### A transaction that is validated twice -/

/-- The envelope of the owner that names no recipient, in a message that does. -/
def replayWire : TxContextWireV1 :=
  { impostorWire with payload := .eoa KnownTx.creation.bytes }

def replayHistory : List OwnerMoment :=
  ownerHistory [[wireBytes replayWire], [wireBytes replayWire]]

theorem replayHistory_validates :
    replayHistory.all OwnerMoment.undisturbed = true ∧
      replayHistory.filterMap OwnerMoment.validatedNonce = [0, 0] := by
  decide +kernel

/-- The same transaction is validated in two blocks, although nothing else touches the account. -/
theorem replay_not_replayProtected :
    Registered ownerAccount ownerWorld ∧
      (∀ moment ∈ replayHistory, Undisturbed ownerAccount (moment.trace ownerHost 9 (ownerStf _))) ∧
      ¬ ReplayProtected ownerHost 9 ownerAccount ownerWorld replayHistory := by
  obtain ⟨hundisturbed, hnonces⟩ := replayHistory_validates
  refine ⟨registered_ownerAccount, fun moment hmem => OwnerMoment.isUndisturbed
    (List.all_eq_true.mp hundisturbed moment hmem), fun h => ?_⟩
  have hdistinct : (replayHistory.filterMap OwnerMoment.validatedNonce).Pairwise (· ≠ ·) := by
    refine List.pairwise_filterMap.mpr (h.distinct.imp fun {m m'} hne nonce hm nonce' hm' => ?_)
    obtain ⟨envelope, hvalid, rfl⟩ := OwnerMoment.validates hm
    obtain ⟨envelope', hvalid', rfl⟩ := OwnerMoment.validates hm'
    exact hne envelope envelope' hvalid hvalid'
  rw [hnonces] at hdistinct
  exact absurd hdistinct (by decide)

end Evolve
