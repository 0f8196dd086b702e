import Mathlib
import Evolve.Lib.Ledger
import Evolve.Sdk.Token
import Evolve.Stf.Atomicity

/-! Conservation of a token.  Its calls are those of a ledger, as long as nothing is minted beyond
the largest amount, so the balances add up to the supply after every sequence of calls. -/

namespace Evolve

open Machine Borsh Effects

noncomputable instance : Fintype AccountId :=
  Fintype.ofInjective (fun a => (⟨a.toNat, a.bytes.toNat_lt⟩ : Fin (256 ^ 32)))
    fun _ _ h => AccountId.toNat_inj.mp (Fin.mk.inj h)

namespace Token

variable {token : AccountId} {codeId : String} {w w' : World} {l : Ledger AccountId}

/-- The balances and the supply in a world are those of a ledger, and the token has its code. -/
structure Represents (token : AccountId) (codeId : String) (w : World) (l : Ledger AccountId) :
    Prop where
  balance : ∀ account, (balanceOf token w account).toNat = l.balances account
  supply : (supplyOf token w).toNat = l.supply
  hasCode : w.storage.codeIdentifier token = .ok (some codeId)

namespace Represents

theorem of_sameStore (hrep : Represents token codeId w l) (h : w.SameStore w') :
    Represents token codeId w' l where
  balance account := by
    rw [balanceOf, amount_congr h]
    exact hrep.balance account
  supply := by
    rw [supplyOf, amount_congr h]
    exact hrep.supply
  hasCode := by
    unfold ExecutionState.codeIdentifier
    rw [h]
    exact hrep.hasCode

theorem supply_lt (hrep : Represents token codeId w l) : l.supply < 2 ^ 128 :=
  hrep.supply ▸ (supplyOf token w).isLt

end Represents

/-! ### The calls -/

variable {request : InvokeRequest}

section Calls

variable (host : Host) (fuel : Nat) {frame : Invoker} (hframe : frame.whoami = token)
include hframe

theorem returns_mintUnchecked (hrep : Represents token codeId w l) (recipient : AccountId)
    (x : U128) (hfits : l.supply + x.toNat < 2 ^ 128) :
    Exec.Returns ((mintUnchecked frame.env recipient x).run (environment host fuel frame))
      (fun _ w' => Represents token codeId w' (l.mint recipient x.toNat)) w := by
  unfold mintUnchecked
  rw [Prog.run_bind]
  refine Exec.Returns.bind ((returns_add host fuel hframe _ _ _ _).mono fun _ w₁ hbalance => ?_)
  rw [Prog.run_bind]
  refine Exec.Returns.bind ((returns_add host fuel hframe _ _ _ _).mono fun _ w₂ hsupply => ?_)
  refine Exec.Returns.pure ⟨fun account => ?_, ?_, ?_⟩
  · have hle := l.balance_le_supply recipient
    have hrecipient := hrep.balance recipient
    rw [balanceOf, amount_writes_other hsupply (by decide), amount_writes hbalance]
    simp only [Ledger.mint, Function.update_apply]
    split
    · rw [← balanceOf, BitVec.toNat_add, hrecipient, Nat.mod_eq_of_lt (by omega)]
    · exact hrep.balance account
  · have hbefore : amount totalSupply token w₁ () = supplyOf token w :=
      amount_writes_other hbalance (by decide) ()
    rw [supplyOf, amount_writes hsupply, if_pos rfl, hbefore, BitVec.toNat_add, hrep.supply,
      Nat.mod_eq_of_lt hfits]
    rfl
  · rw [hsupply.codeIdentifier, hbalance.codeIdentifier, hrep.hasCode]

theorem returns_burnUnchecked (hrep : Represents token codeId w l) (fromAccount : AccountId)
    (x : U128) :
    Exec.Returns ((burnUnchecked frame.env fromAccount x).run (environment host fuel frame))
      (fun _ w' => ∃ hx, Represents token codeId w' (l.burn fromAccount x.toNat hx)) w := by
  unfold burnUnchecked
  rw [Prog.run_bind]
  refine Exec.Returns.bind ((returns_sub host fuel hframe _ _ _ _ _).mono fun _ w₁ h₁ => ?_)
  obtain ⟨hx, hbalance⟩ := h₁
  rw [Prog.run_bind]
  refine Exec.Returns.bind ((returns_sub host fuel hframe _ _ _ _ _).mono fun _ w₂ h₂ => ?_)
  obtain ⟨hxs, hsupply⟩ := h₂
  refine Exec.Returns.pure ⟨hrep.balance fromAccount ▸ hx, fun account => ?_, ?_, ?_⟩
  · rw [balanceOf, amount_writes_other hsupply (by decide), amount_writes hbalance]
    simp only [Ledger.burn, Function.update_apply]
    split
    · rw [BitVec.toNat_sub_of_le hx, ← balanceOf, hrep.balance]
    · exact hrep.balance account
  · have hbefore : amount totalSupply token w₁ () = supplyOf token w :=
      amount_writes_other hbalance (by decide) ()
    rw [supplyOf, amount_writes hsupply, if_pos rfl, BitVec.toNat_sub_of_le hxs, hbefore,
      hrep.supply]
    rfl
  · rw [hsupply.codeIdentifier, hbalance.codeIdentifier, hrep.hasCode]

theorem returns_transfer (hrep : Represents token codeId w l) (msg : TransferMsg) :
    Exec.Returns ((transfer frame.env msg).run (environment host fuel frame))
      (fun _ w' => ∃ hx, Represents token codeId w'
        (l.transfer frame.sender msg.toAccount msg.amount.toNat hx)) w := by
  unfold transfer
  rw [Prog.run_bind]
  refine Exec.Returns.bind ((returns_sub host fuel hframe _ _ _ _ _).mono fun _ w₁ h₁ => ?_)
  obtain ⟨hx, hsender⟩ := h₁
  replace hsender : balances.Writes token frame.sender _ w w₁ := hsender
  have hx' : msg.amount.toNat ≤ l.balances frame.sender := hrep.balance frame.sender ▸ hx
  -- without the amount, the balances are those of the ledger that has burnt it
  have hburnt : ∀ account, (balanceOf token w₁ account).toNat =
      (l.burn frame.sender msg.amount.toNat hx').balances account := by
    intro account
    rw [balanceOf, amount_writes hsender]
    simp only [Ledger.burn, Function.update_apply]
    split
    · rw [BitVec.toNat_sub_of_le hx]
      exact congrArg (· - msg.amount.toNat) (hrep.balance frame.sender)
    · exact hrep.balance account
  rw [Prog.run_bind]
  refine Exec.Returns.bind ((returns_add host fuel hframe _ _ _ _).mono fun _ w₂ hrecipient => ?_)
  refine Exec.Returns.pure ⟨hx', fun account => ?_, ?_, ?_⟩
  · rw [balanceOf, amount_writes hrecipient]
    simp only [Ledger.transfer, Ledger.mint, Function.update_apply]
    split
    · have hle := (l.burn frame.sender msg.amount.toNat hx').balance_le_supply msg.toAccount
      have hlt := hrep.supply_lt
      have hsupply : (l.burn frame.sender msg.amount.toNat hx').supply =
        l.supply - msg.amount.toNat := rfl
      have hsender := l.balance_le_supply frame.sender
      rw [← balanceOf, BitVec.toNat_add, hburnt, Nat.mod_eq_of_lt (by omega)]
    · exact hburnt account
  · rw [supplyOf, amount_writes_other hrecipient (by decide),
      amount_writes_other hsender (by decide), Ledger.transfer_supply]
    exact hrep.supply
  · rw [hrecipient.codeIdentifier, hsender.codeIdentifier, hrep.hasCode]

omit hframe in
theorem returns_asSupplyManager {p : Program Unit} {P : World → Prop}
    (hp : ∀ w₁, w.SameStore w₁ →
      Exec.Returns (p.run (environment host fuel frame)) (fun _ w' => P w') w₁) :
    Exec.Returns ((asSupplyManager frame.env p).run (environment host fuel frame))
      (fun _ w' => P w') w := by
  unfold asSupplyManager
  rw [Prog.run_bind]
  refine Exec.Returns.bind ((supplyManager.returns_get host fuel frame () w).mono fun _ w₁ h => ?_)
  split
  · exact Exec.Returns.throw
  · exact hp w₁ h.1

omit hframe in
theorem returns_call {α : Type} [Encodable α] {f : α → Program Unit} {P : World → Prop}
    (hf : ∀ msg, request.get = .ok msg →
      Exec.Returns ((f msg).run (environment host fuel frame)) (fun _ w' => P w') w) :
    Exec.Returns ((call frame.env request f).run (environment host fuel frame))
      (fun _ w' => frame.funds = [] ∧ P w') w := by
  unfold call
  rw [Prog.run_bind]
  refine Exec.Returns.bind (Exec.Returns.ofExcept fun msg hmsg => ?_)
  split
  · rename_i hfunds
    rw [Prog.run_bind]
    refine Exec.Returns.bind ((hf msg hmsg).mono fun _ w' h => ?_)
    exact Exec.Returns.ofExcept fun _ _ => ⟨List.isEmpty_iff.mp hfunds, h⟩
  · exact Exec.Returns.throw

omit hframe in
theorem returns_execute_funds (request : InvokeRequest) (w : World) :
    Exec.Returns ((execute frame.env request).run (environment host fuel frame))
      (fun _ _ => frame.funds = []) w := by
  have hcall : ∀ {α : Type} [Encodable α] (f : α → Program Unit),
      Exec.Returns ((call frame.env request f).run (environment host fuel frame))
        (fun _ _ => frame.funds = []) w := fun f =>
    (returns_call host fuel (P := fun _ => True) fun _ _ _ _ _ => trivial).mono fun _ _ h => h.1
  unfold execute
  split
  · exact hcall _
  · split
    · exact hcall _
    · split
      · exact hcall _
      · exact Exec.Returns.throw

theorem returns_execute (hrep : Represents token codeId w l)
    (hfits : ∀ msg : MintMsg, request.function = InvokableMessage.functionIdentifier MintMsg →
      request.get = .ok msg → l.supply + msg.amount.toNat < 2 ^ 128) :
    Exec.Returns ((execute frame.env request).run (environment host fuel frame))
      (fun _ w' => ∃ l', Represents token codeId w' l') w := by
  unfold execute
  split
  · rename_i hmint
    refine (returns_call host fuel fun msg hmsg => ?_).mono fun _ _ h => h.2
    refine returns_asSupplyManager host fuel fun w₁ hsame => ?_
    refine (returns_mintUnchecked host fuel hframe (hrep.of_sameStore hsame) _ _ ?_).mono
      fun _ _ h => ⟨_, h⟩
    exact hfits msg hmint hmsg
  · split
    · refine (returns_call host fuel fun msg _ => ?_).mono fun _ _ h => h.2
      refine returns_asSupplyManager host fuel fun w₁ hsame => ?_
      exact (returns_burnUnchecked host fuel hframe (hrep.of_sameStore hsame) _ _).mono
        fun _ _ h => ⟨_, h.2⟩
    · split
      · refine (returns_call host fuel fun msg _ => ?_).mono fun _ _ h => h.2
        exact (returns_transfer host fuel hframe hrep msg).mono fun _ _ h => ⟨_, h.2⟩
      · exact Exec.Returns.throw

end Calls

/-! ### Initialisation -/

def setAll (list : List (AccountId × U128)) (f : AccountId → U128) : AccountId → U128 :=
  list.foldl (fun f p => Function.update f p.1 p.2) f

def addAll (list : List (AccountId × U128)) (total : U128) : U128 :=
  list.foldl (fun total p => total + p.2) total

/-- Setting balances is minting them, for accounts that have none yet and are not repeated. -/
theorem exists_ledger_setAll (list : List (AccountId × U128)) (f : AccountId → U128) (total : U128)
    (hf : ∀ account, (f account).toNat = l.balances account) (htotal : total.toNat = l.supply)
    (hzero : ∀ p ∈ list, l.balances p.1 = 0) (hnodup : (list.map Prod.fst).Nodup)
    (hsum : l.supply + (list.map fun p => p.2.toNat).sum < 2 ^ 128) :
    ∃ l' : Ledger AccountId, (∀ account, (setAll list f account).toNat = l'.balances account) ∧
      (addAll list total).toNat = l'.supply := by
  induction list generalizing f total l with
  | nil => exact ⟨l, hf, htotal⟩
  | cons p list ih =>
    obtain ⟨account, x⟩ := p
    simp only [List.map_cons, List.sum_cons] at hsum
    obtain ⟨hnotin, hnodup⟩ := List.nodup_cons.mp hnodup
    have hnone : l.balances account = 0 := hzero _ List.mem_cons_self
    refine ih (l := l.mint account x.toNat) (Function.update f account x) (total + x)
      (fun a => ?_) ?_ (fun q hq => ?_) hnodup ?_
    · simp only [Ledger.mint, Function.update_apply, hnone, Nat.zero_add]
      split
      · rfl
      · exact hf a
    · rw [BitVec.toNat_add, htotal]
      exact Nat.mod_eq_of_lt (by omega)
    · have hne : q.1 ≠ account := fun h => hnotin (List.mem_map.mpr ⟨q, hq, h⟩)
      simp only [Ledger.mint, Function.update_apply, if_neg hne]
      exact hzero q (List.mem_cons_of_mem _ hq)
    · show l.supply + x.toNat + _ < _
      omega

section Init

variable (host : Host) (fuel : Nat) {frame : Invoker} (hframe : frame.whoami = token)
include hframe

theorem returns_setBalances (list : List (AccountId × U128)) (total : U128) (w : World) :
    Exec.Returns ((setBalances list total).run (environment host fuel frame)) (fun total' w' =>
      total' = addAll list total ∧ balanceOf token w' = setAll list (balanceOf token w) ∧
        w'.storage.codeIdentifier token = w.storage.codeIdentifier token) w := by
  induction list generalizing total w with
  | nil => exact Exec.Returns.pure ⟨rfl, rfl, rfl⟩
  | cons p list ih =>
    rw [setBalances, List.foldlM_cons, Prog.run_bind, Prog.run_bind, bind_assoc]
    subst hframe
    refine Exec.Returns.bind ((balances.returns_set host fuel frame p.1 p.2 w).mono
      fun _ w₁ hset => ?_)
    refine Exec.Returns.bind (Exec.Returns.pure ?_)
    refine (ih (total + p.2) w₁).mono fun total' w' h => ?_
    obtain ⟨htotal, hbalance, hid⟩ := h
    have hupdate : balanceOf frame.whoami w₁ =
        Function.update (balanceOf frame.whoami w) p.1 p.2 := by
      funext account
      rw [balanceOf, amount_writes hset, Function.update_apply]
      rfl
    rw [hupdate] at hbalance
    exact ⟨htotal, hbalance, hid.trans (hset.codeIdentifier _)⟩

/-- What a successful initialisation stores: the last balance of each account in the list, and the
sum of all balances in it. -/
theorem returns_init {msg : InitializeMsg} (hmsg : request.get = .ok msg) (w : World) :
    Exec.Returns ((init frame.env request).run (environment host fuel frame)) (fun _ w' =>
      balanceOf token w' = setAll msg.balances (balanceOf token w) ∧
        supplyOf token w' = addAll msg.balances 0 ∧
        w'.storage.codeIdentifier token = w.storage.codeIdentifier token) w := by
  subst hframe
  refine (returns_call host fuel (fun msg' hmsg' => ?_)).mono fun _ _ h => h.2
  cases hmsg.symm.trans hmsg'
  unfold initializeAccount
  rw [Prog.run_bind]
  refine Exec.Returns.bind ((metadata.returns_set host fuel frame () _ w).mono fun _ w₁ hmeta => ?_)
  rw [Prog.run_bind]
  refine Exec.Returns.bind ((returns_setBalances host fuel rfl _ _ w₁).mono fun total w₂ h₂ => ?_)
  obtain ⟨rfl, hbalance, hid⟩ := h₂
  rw [Prog.run_bind]
  refine Exec.Returns.bind ((supplyManager.returns_set host fuel frame () _ w₂).mono
    fun _ w₃ hmanager => ?_)
  refine (totalSupply.returns_set host fuel frame () _ w₃).mono fun _ w₄ hsupply => ?_
  have hmeta' : balanceOf frame.whoami w₁ = balanceOf frame.whoami w :=
    funext fun account => amount_writes_other hmeta (by decide) account
  refine ⟨funext fun account => ?_, ?_, ?_⟩
  · rw [balanceOf, amount_writes_other hsupply (by decide),
      amount_writes_other hmanager (by decide), ← balanceOf, hbalance, hmeta']
  · rw [supplyOf, amount_writes hsupply, if_pos rfl]
  · rw [hsupply.codeIdentifier, hmanager.codeIdentifier, hid, hmeta.codeIdentifier]

end Init

/-! ### Runs -/

structure Call where
  invoker : Invoker
  request : InvokeRequest
  funds : List FungibleAsset
  fuel : Nat

namespace Call

variable (host : Host) (token : AccountId)

def run (c : Call) : Run InvokeResponse :=
  environment host (c.fuel + 1) c.invoker (.doExec token c.request c.funds)

/-- The call does not mint beyond the largest amount, and the transfers of its funds, which run
other code, do not give the token another code. -/
structure Fits (c : Call) (w : World) : Prop where
  mint : ∀ msg : MintMsg, c.request.function = InvokableMessage.functionIdentifier MintMsg →
    c.request.get = .ok msg → (supplyOf token w).toNat + msg.amount.toNat < 2 ^ 128
  keepsCode : c.funds ≠ [] → ∀ w₁,
    Invoker.handleTransfers host (environment host c.fuel) c.invoker token c.funds
      { w with storage := w.storage.checkpoint.2 } = .done (.ok (), w₁) →
    w₁.storage.codeIdentifier token = w.storage.codeIdentifier token

end Call

/-- The worlds that calls reach from `w₀`.  Between calls the world may change in what the store
does not show: gas counters, events, and overlays that are committed to the base. -/
inductive Reaches (host : Host) (token : AccountId) (w₀ : World) : World → Prop
  | refl : Reaches host token w₀ w₀
  | same {w w' : World} (h : Reaches host token w₀ w) (hsame : w.SameStore w') :
      Reaches host token w₀ w'
  | call {w w' : World} {r : SdkResult InvokeResponse} (h : Reaches host token w₀ w) (c : Call)
      (hfits : c.Fits host token w) (hrun : c.run host token w = .done (r, w')) :
      Reaches host token w₀ w'

section Runs

variable {host : Host} (htoken : token ≠ runtimeAccountId ∧ token ≠ storageAccountId)
variable (hcode : host.withCode codeId = .ok (some code))
include htoken hcode

theorem returns_execWithoutTransfers {nested : Environment} {invoker : Invoker}
    {funds : List FungibleAsset} {P : InvokeResponse → World → Prop}
    (hid : w.storage.codeIdentifier token = .ok (some codeId))
    (hexecute : Exec.Returns ((execute (invoker.branchExec token funds).env request).run
      (nested (invoker.branchExec token funds))) P w.countRead) :
    Exec.Returns (Invoker.execWithoutTransfers host nested invoker token request funds) P w := by
  unfold Invoker.execWithoutTransfers
  rw [if_neg htoken.1, if_neg htoken.2]
  refine Exec.Returns.bind (Exec.Returns.bind ?_)
  refine Exec.Returns.of_wp (wp_getAccountCodeIdentifierForAccount.mpr ?_)
  rw [hid]
  rintro _ ⟨⟩
  refine Exec.Returns.bind (Exec.Returns.ofExcept fun found hfound => ?_)
  cases hcode.symm.trans hfound
  exact Exec.Returns.pure hexecute

theorem returns_run (c : Call) (hrep : Represents token codeId w l) (hfits : c.Fits host token w) :
    Exec.Returns (c.run host token) (fun _ w' => ∃ l', Represents token codeId w' l') w := by
  intro response w' hrun
  obtain ⟨w₁, htransfers, hexec⟩ := doExec_ok hrun
  by_cases hfunds : c.funds = []
  · rw [hfunds] at htransfers hexec
    cases htransfers
    have hcheckpoint : Represents token codeId { w with storage := w.storage.checkpoint.2 } l :=
      hrep.of_sameStore rfl
    refine returns_execWithoutTransfers (P := fun _ w' => ∃ l', Represents token codeId w' l')
      htoken hcode hcheckpoint.hasCode ?_ response w' hexec
    have hread : w.SameStore (World.countRead { w with storage := w.storage.checkpoint.2 }) := rfl
    refine returns_execute host c.fuel (rfl : _ = token) (hrep.of_sameStore hread)
      fun msg hmint hmsg => ?_
    rw [← hrep.supply]
    exact hfits.mint msg hmint hmsg
  · -- the token refuses funds, whatever their transfers have done
    have hid := (hfits.keepsCode hfunds w₁ htransfers).trans hrep.hasCode
    exact (hfunds (returns_execWithoutTransfers htoken hcode hid
      (returns_execute_funds host c.fuel _ _) _ _ hexec)).elim

omit htoken hcode in
theorem run_failed {c : Call} {e : ErrorCode} (hrun : c.run host token w = .done (.error e, w')) :
    w.SameStore w' :=
  (Exec.wp_done (wp_doExec_sameExceptMetrics _ _ _ _ _ _ w) hrun e rfl).lookup

theorem Reaches.represents {w₀ : World} (hrep : ∃ l, Represents token codeId w₀ l)
    (h : Reaches host token w₀ w) : ∃ l, Represents token codeId w l := by
  induction h with
  | refl => exact hrep
  | same h hsame ih =>
    obtain ⟨l, hrep⟩ := ih
    exact ⟨l, hrep.of_sameStore hsame⟩
  | @call w w' r h c hfits hrun ih =>
    obtain ⟨l, hrep⟩ := ih
    cases r with
    | ok response => exact returns_run htoken hcode c hrep hfits response w' hrun
    | error e => exact ⟨l, hrep.of_sameStore (run_failed hrun)⟩

/-- After an initialisation without repeated accounts and without overflow, and after every
sequence of calls that mint within the largest amount, the balances add up to the supply, and a
call that fails changes neither. -/
theorem balances_sum_eq_supply {w₀ w₁ : World} {fuel : Nat} {frame : Invoker}
    {request : InvokeRequest} {msg : InitializeMsg} {response : InvokeResponse}
    (hid : w₀.storage.codeIdentifier token = .ok (some codeId))
    (hempty : ∀ account, balanceOf token w₀ account = 0) (hframe : frame.whoami = token)
    (hinit : (code.init frame.env request).run (environment host fuel frame) w₀ =
      .done (.ok response, w₁))
    (hmsg : request.get = .ok msg) (hnodup : (msg.balances.map Prod.fst).Nodup)
    (hsum : (msg.balances.map fun p => p.2.toNat).sum < 2 ^ 128)
    (hreach : Reaches host token w₁ w) :
    ∑ account, (balanceOf token w account).toNat = (supplyOf token w).toNat ∧
      ∀ (c : Call) e w', c.run host token w = .done (.error e, w') →
        balanceOf token w' = balanceOf token w ∧ supplyOf token w' = supplyOf token w := by
  have hrep₁ : ∃ l, Represents token codeId w₁ l := by
    obtain ⟨hbalance, hsupply, hid₁⟩ := returns_init host fuel hframe hmsg w₀ _ _ hinit
    obtain ⟨l, hl, htotal⟩ := exists_ledger_setAll (l := Ledger.empty) msg.balances
      (balanceOf token w₀) 0 (fun account => congrArg BitVec.toNat (hempty account)) rfl
      (fun _ _ => rfl) hnodup (by simpa [Ledger.empty] using hsum)
    exact ⟨l, fun account => hbalance ▸ hl account, hsupply ▸ htotal, hid₁.trans hid⟩
  obtain ⟨l, hrep⟩ := hreach.represents htoken hcode hrep₁
  constructor
  · rw [hrep.supply, ← l.conserved]
    exact Finset.sum_congr rfl fun account _ => hrep.balance account
  · intro c e w' hrun
    have hsame := run_failed hrun
    exact ⟨funext fun account => amount_congr hsame account, amount_congr hsame ()⟩

end Runs

/-! ### Runs of a sample token -/

def sampleToken : AccountId := .fromU64 20

def tokenHost : Host := { sampleHost with withCode := fun _ => .ok (some code) }

def tokenStore : ReadonlyKV := fun key =>
  if key = accountCodeIdentifierKey sampleToken then (Message.new "token").map some else .ok none

def tokenWorld : World := ⟨.new tokenStore, .infinite, []⟩

def initFrame : Invoker := (Invoker.newForBeginBlock ⟨1, 0⟩).branchExec sampleToken []

def initMsg (balances : List (AccountId × U128)) : InitializeMsg :=
  ⟨⟨"Sample", "S", 6, "", ""⟩, balances, some (.fromU64 30)⟩

/-- The request for a message, without the check that it can be encoded. -/
def requestOf {α : Type} [InvokableMessage α] (msg : α) : InvokeRequest :=
  .newFromMessage (InvokableMessage.functionIdentifierName α)
    (InvokableMessage.functionIdentifier α) (((Encodable.codec : Codec α).encode msg).getD [])

theorem requestOf_get {α : Type} [InvokableMessage α] {msg : α}
    (h : ((Encodable.codec : Codec α).encode msg).isSome) : (requestOf msg).get = .ok msg := by
  obtain ⟨bytes, hbytes⟩ := Option.isSome_iff_exists.mp h
  have hmessage : (requestOf msg).message = bytes := by
    simp [requestOf, InvokeRequest.newFromMessage, hbytes]
  rw [InvokeRequest.get, hmessage, Message.get, Codec.fromSlice_encode _ hbytes]

def initRun (balances : List (AccountId × U128)) : Run InvokeResponse :=
  (code.init initFrame.env (requestOf (initMsg balances))).run (environment tokenHost 1 initFrame)

theorem tokenWorld_balanceOf (account : AccountId) :
    balanceOf sampleToken tokenWorld account = 0 := by
  have hlookup : ∀ key, tokenWorld.storage.lookup (Invoker.accountStorageKey sampleToken key) =
      .ok none := by
    intro key
    have hne : Invoker.accountStorageKey sampleToken key ≠
        accountCodeIdentifierKey sampleToken := by
      rintro ⟨⟩
    simp [ExecutionState.lookup, tokenWorld, ExecutionState.new, tokenStore, hne]
  have hread : balances.read tokenWorld.storage sampleToken account =
      (balances.makeKey account).map fun _ => none := by
    unfold Map.read
    cases balances.makeKey account with
    | error e => rfl
    | ok bytes => simp [hlookup, Map.decodeValue, bind, Except.bind, Except.map]
  rw [balanceOf, amount, hread]
  cases balances.makeKey account <;> rfl

def sampleTransfer : Call :=
  ⟨{ initFrame with whoami := .fromU64 40 }, requestOf (TransferMsg.mk (.fromU64 41) 3), [], 1⟩

def sampleBalances : List (AccountId × U128) := [(.fromU64 40, 5), (.fromU64 41, 7)]

def sampleRun : Run (SdkResult InvokeResponse) := do
  let _ ← initRun sampleBalances
  Exec.attempt (sampleTransfer.run tokenHost sampleToken)

theorem sampleRun_ends :
    Exec.Ends sampleRun (fun r w' => r.toOption.isSome ∧
      balanceOf sampleToken w' (.fromU64 40) = 2 ∧ balanceOf sampleToken w' (.fromU64 41) = 10 ∧
        supplyOf sampleToken w' = 12) tokenWorld := by
  decide +kernel

theorem balances_sum_eq_supply_transfer :
    ∃ w, balanceOf sampleToken w (.fromU64 41) = 10 ∧ supplyOf sampleToken w = 12 ∧
      ∑ account, (balanceOf sampleToken w account).toNat = (supplyOf sampleToken w).toNat := by
  obtain ⟨r, w, hrun, hok, -, hbalance, hsupply⟩ := sampleRun_ends.exists
  rcases Exec.bind_done.mp hrun with ⟨response, w₁, hinit, htransfer⟩ | ⟨e, -, rfl⟩
  · obtain ⟨result, htransfer', rfl⟩ := Exec.attempt_done.mp htransfer
    have hmsg : (requestOf (initMsg sampleBalances)).get = .ok (initMsg sampleBalances) :=
      requestOf_get (by decide +kernel)
    have hid : tokenWorld.storage.codeIdentifier sampleToken = .ok (some "token") := by
      decide +kernel
    refine ⟨w, hbalance, hsupply, (balances_sum_eq_supply (by decide) rfl hid
      tokenWorld_balanceOf rfl hinit hmsg (by decide) (by decide)
      (.call .refl sampleTransfer ⟨?_, ?_⟩ htransfer')).1⟩
    · rintro msg ⟨⟩
    · intro hfunds
      exact (hfunds rfl).elim
  · cases hok

def repeatedBalances : List (AccountId × U128) := [(.fromU64 40, 5), (.fromU64 40, 7)]

theorem initRun_repeated_ends :
    Exec.Ends (initRun repeatedBalances) (fun r _ => r.toOption.isSome) tokenWorld := by
  decide +kernel

/-- A repeated account: the second balance replaces the first, and the supply counts both. -/
theorem init_counts_repeated_account_twice :
    ∃ response w, initRun repeatedBalances tokenWorld = .done (.ok response, w) ∧
      supplyOf sampleToken w = 12 ∧ ∑ account, (balanceOf sampleToken w account).toNat = 7 := by
  obtain ⟨r, w, hrun, hok⟩ := initRun_repeated_ends.exists
  cases r with
  | error e => cases hok
  | ok response =>
    have hmsg : (requestOf (initMsg repeatedBalances)).get = .ok (initMsg repeatedBalances) :=
      requestOf_get (by decide +kernel)
    have hframe : initFrame.whoami = sampleToken := rfl
    obtain ⟨hbalance, hsupply, -⟩ := returns_init tokenHost 1 hframe hmsg tokenWorld _ _ hrun
    refine ⟨response, w, hrun, hsupply.trans (by decide), ?_⟩
    have hlast : ∀ account, (balanceOf sampleToken w account).toNat =
        if account = .fromU64 40 then 7 else 0 := by
      intro account
      rw [hbalance]
      simp only [setAll, initMsg, repeatedBalances, List.foldl_cons, List.foldl_nil,
        Function.update_apply, tokenWorld_balanceOf]
      split <;> rfl
    rw [Finset.sum_congr rfl fun account _ => hlast account, Finset.sum_ite_eq' Finset.univ,
      if_pos (Finset.mem_univ _)]

end Token

end Evolve
