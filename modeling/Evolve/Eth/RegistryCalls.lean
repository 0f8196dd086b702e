import Mathlib
import Evolve.Eth.Eoa

/-! What the programs of the registry do to a store.  They look addresses and accounts up in the
namespace of the runtime account, but they write into that of the account whose frame they run
in. -/

namespace Evolve

open Machine Borsh Effects

namespace Eth

/-! ### The tables of a store -/

def lookupInStorage (V : Type) [Encodable V] (storage : ReadonlyKV) (key : Bytes) :
    SdkResult (Option V) := do
  Map.decodeValue (← storage (Invoker.accountStorageKey runtimeAccountId key))

def lookupAccountIdInStorage (storage : ReadonlyKV) (address : Address) :
    SdkResult (Option AccountId) :=
  lookupInStorage AccountId storage (addrToIdKey address)

def lookupAddressInStorage (storage : ReadonlyKV) (account : AccountId) :
    SdkResult (Option Address) :=
  lookupInStorage Address storage (idToAddrKey account)

def registeredAccount (w : World) (address : Address) : SdkResult (Option AccountId) :=
  lookupAccountIdInStorage w.storage.lookup address

def registeredAddress (w : World) (account : AccountId) : SdkResult (Option Address) :=
  lookupAddressInStorage w.storage.lookup account

/-- The entries of the registry are the same. -/
def SameRegistry (w w' : World) : Prop :=
  ∀ key, w'.storage.lookup (Invoker.accountStorageKey runtimeAccountId (0x72 :: key)) =
    w.storage.lookup (Invoker.accountStorageKey runtimeAccountId (0x72 :: key))

theorem SameRegistry.of_sameStore {w w' : World} (h : w.SameStore w') : SameRegistry w w' :=
  fun _ => congrFun h _

theorem SameRegistry.trans {w₁ w₂ w₃ : World} (h₁ : SameRegistry w₁ w₂)
    (h₂ : SameRegistry w₂ w₃) : SameRegistry w₁ w₃ := fun key => (h₂ key).trans (h₁ key)

theorem addrToIdKey_eq (address : Address) :
    addrToIdKey address = 0x72 :: (eoaAddrToIdPrefix.tail ++ address.bytes) := by
  have hfirst : eoaAddrToIdPrefix = 0x72 :: eoaAddrToIdPrefix.tail := by decide
  unfold addrToIdKey
  rw [hfirst]
  rfl

theorem idToAddrKey_eq (account : AccountId) :
    idToAddrKey account = 0x72 :: (eoaIdToAddrPrefix.tail ++ account.asBytes) := by
  have hfirst : eoaIdToAddrPrefix = 0x72 :: eoaIdToAddrPrefix.tail := by decide
  unfold idToAddrKey
  rw [hfirst]
  rfl

theorem SameRegistry.account {w w' : World} (h : SameRegistry w w') (address : Address) :
    registeredAccount w' address = registeredAccount w address := by
  unfold registeredAccount lookupAccountIdInStorage lookupInStorage
  rw [addrToIdKey_eq, h]

theorem SameRegistry.address {w w' : World} (h : SameRegistry w w') (account : AccountId) :
    registeredAddress w' account = registeredAddress w account := by
  unfold registeredAddress lookupAddressInStorage lookupInStorage
  rw [idToAddrKey_eq, h]

theorem addrToIdKey_inj {a a' : Address} : addrToIdKey a = addrToIdKey a' ↔ a = a' := by
  constructor
  · intro h
    exact FixedBytes.ext (List.append_cancel_left h)
  · rintro rfl
    rfl

theorem idToAddrKey_inj {i i' : AccountId} : idToAddrKey i = idToAddrKey i' ↔ i = i' := by
  constructor
  · intro h
    exact AccountId.asBytes_inj.mp (List.append_cancel_left h)
  · rintro rfl
    rfl

theorem addrToIdKey_ne_idToAddrKey (address : Address) (account : AccountId) :
    addrToIdKey address ≠ idToAddrKey account := by
  intro h
  have htag := (List.append_inj h (by decide)).1
  revert htag
  decide

/-! ### Lookups -/

section

variable (host : Host) (fuel : Nat) (frame : Invoker)

theorem settles_lookupInEnv (V : Type) [Encodable V] (key : Bytes) (w : World) :
    Exec.Settles ((lookupInEnv V key).lift.run (environment host fuel frame))
      (fun value w' => w.SameStore w' ∧ lookupInStorage V w.storage.lookup key = .ok value)
      w.SameStore w := by
  refine .of_returns ?_ <| Exec.wp_mono (fun _ _ h _ _ => h) <|
    sameStore_queryRule.keeps_run_lift (sameStore_queryRule.keeps_doQuery host fuel frame) _ w
  unfold lookupInEnv queryAccount
  rw [QueryProgram.lift_bind, Prog.run_bind, QueryProgram.lift_bind, Prog.run_bind, bind_assoc]
  refine Exec.Returns.bind (Exec.Returns.ofExcept fun request hrequest => ?_)
  rw [QueryProgram.lift_bind, Prog.run_bind, bind_assoc, QueryProgram.lift_request,
    Prog.run_request]
  refine Exec.Returns.bind
    ((Map.returns_storageGet host fuel frame hrequest).mono fun response w' h => ?_)
  obtain ⟨hsame, stored, hlookup, hresponse⟩ := h
  refine Exec.Returns.bind (Exec.Returns.ofExcept fun resp hresp => ?_)
  cases hresponse.symm.trans hresp
  refine Exec.Returns.ofExcept fun value hvalue => ⟨hsame, ?_⟩
  unfold lookupInStorage
  rw [hlookup]
  exact hvalue

/-- What the registry has for an address and an account, none of which contradicts the pair. -/
structure ConflictFree (w : World) (address : Address) (account : AccountId)
    (found : Option AccountId × Option Address) : Prop where
  forward : registeredAccount w address = .ok found.1
  reverse : registeredAddress w account = .ok found.2
  forward_eq : ∀ i ∈ found.1, i = account
  reverse_eq : ∀ a ∈ found.2, a = address

theorem settles_ensureMappingConflictFree (address : Address) (account : AccountId) (w : World) :
    Exec.Settles
      ((ensureMappingConflictFree address account).lift.run (environment host fuel frame))
      (fun found w' => w.SameStore w' ∧ ConflictFree w address account found) w.SameStore w := by
  unfold ensureMappingConflictFree
  rw [QueryProgram.lift_bind, Prog.run_bind]
  refine .bind ((settles_lookupInEnv host fuel frame AccountId _ w).mono fun forward w₁ h₁ => ?_)
  obtain ⟨hsame₁, hforward⟩ := h₁
  rw [QueryProgram.lift_bind, Prog.run_bind]
  have hreverse := settles_lookupInEnv host fuel frame Address (idToAddrKey account) w₁
  refine .bind ((hreverse.mono_error fun _ => hsame₁.trans).mono fun reverse w₂ h₂ => ?_)
  obtain ⟨hsame₂, hreverse⟩ := h₂
  have hsame := hsame₁.trans hsame₂
  split
  · exact .throw hsame
  · rename_i hforward_eq
    split
    · exact .throw hsame
    · rename_i hreverse_eq
      refine .pure ⟨hsame, hforward, ?_, ?_, ?_⟩
      · unfold registeredAddress lookupAddressInStorage
        rw [← hsame₁]
        exact hreverse
      · rintro i ⟨⟩
        simpa using hforward_eq
      · rintro a ⟨⟩
        simpa using hreverse_eq

/-! ### Writes -/

/-- `w'` is `w` with both directions of the pair stored by `owner`. -/
def Maps (owner : AccountId) (address : Address) (account : AccountId) (w w' : World) : Prop :=
  ∃ id addr, Message.new account = .ok id ∧ Message.new address = .ok addr ∧
    ∀ k, w'.storage.lookup k =
      if Invoker.accountStorageKey owner (idToAddrKey account) = k then .ok (some addr)
      else if Invoker.accountStorageKey owner (addrToIdKey address) = k then .ok (some id)
      else w.storage.lookup k

/-- What a mapping that could be ensured has done: nothing if the registry had the pair, and stored
it if the registry had no part or one part of it. -/
def Ensured (owner : AccountId) (address : Address) (account : AccountId) (w w' : World) : Prop :=
  ∃ found, ConflictFree w address account found ∧
    if found.1.isSome ∧ found.2.isSome then w.SameStore w' else Maps owner address account w w'

theorem ConflictFree.of_sameStore {w w₁ : World} (hsame : w.SameStore w₁) {address : Address}
    {account : AccountId} {found : Option AccountId × Option Address}
    (h : ConflictFree w₁ address account found) : ConflictFree w address account found := by
  obtain ⟨forward, reverse, forward_eq, reverse_eq⟩ := h
  rw [(SameRegistry.of_sameStore hsame).account] at forward
  rw [(SameRegistry.of_sameStore hsame).address] at reverse
  exact ⟨forward, reverse, forward_eq, reverse_eq⟩

theorem Ensured.of_sameStore {owner : AccountId} {address : Address} {account : AccountId}
    {w w₁ w' : World} (hsame : w.SameStore w₁) (h : Ensured owner address account w₁ w') :
    Ensured owner address account w w' := by
  obtain ⟨found, hfree, h⟩ := h
  refine ⟨found, hfree.of_sameStore hsame, ?_⟩
  split at h
  · rw [if_pos ‹_›]
    exact hsame.trans h
  · obtain ⟨id, addr, hid, haddr, hlookup⟩ := h
    rw [if_neg ‹_›]
    refine ⟨id, addr, hid, haddr, fun k => ?_⟩
    rw [hlookup, hsame]

theorem returns_execStorageSet {key : Bytes} {value : Message} (w : World) :
    Exec.Returns ((execAccount Unit storageAccountId (StorageSetRequest.mk key value) []).run
      (environment host fuel frame)) (fun _ w' => ∀ k, w'.storage.lookup k =
        if Invoker.accountStorageKey frame.whoami key = k then .ok (some value)
        else w.storage.lookup k) w := by
  unfold execAccount
  rw [Prog.run_bind]
  refine .bind (.ofExcept fun request hrequest => ?_)
  rw [Prog.run_bind, Prog.run_request]
  refine .bind ((Map.returns_storageSet host fuel frame hrequest).mono fun _ w' h => ?_)
  exact .ofExcept fun _ _ => h

theorem returns_setMapping (address : Address) (account : AccountId) (w : World) :
    Exec.Returns ((setMapping address account).run (environment host fuel frame))
      (fun _ w' => Ensured frame.whoami address account w w') w := by
  unfold setMapping
  rw [Prog.run_bind]
  have hfree := (settles_ensureMappingConflictFree host fuel frame address account w).returns
  refine .bind (hfree.mono fun found w₁ h => ?_)
  obtain ⟨hsame, hfree⟩ := h
  obtain ⟨forward, reverse⟩ := found
  dsimp only
  split
  · refine .pure ⟨_, hfree, ?_⟩
    rw [if_pos ‹_›]
    exact hsame
  · rw [Prog.run_bind]
    refine .bind (.ofExcept fun id hid => ?_)
    rw [Prog.run_bind]
    refine .bind ((returns_execStorageSet host fuel frame w₁).mono fun _ w₂ h₂ => ?_)
    rw [Prog.run_bind]
    refine .bind (.ofExcept fun addr haddr => ?_)
    refine (returns_execStorageSet host fuel frame w₂).mono fun _ w₃ h₃ => ?_
    refine ⟨_, hfree, ?_⟩
    rw [if_neg ‹_›]
    refine ⟨id, addr, hid, haddr, fun k => ?_⟩
    rw [h₃, h₂, hsame]

theorem returns_ensureEoaMapping (address : Address) (account : AccountId) (w : World) :
    Exec.Returns ((ensureEoaMapping address account).run (environment host fuel frame))
      (fun _ w' => Ensured frame.whoami address account w w') w := by
  unfold ensureEoaMapping
  rw [Prog.run_bind]
  have hfree := (settles_ensureMappingConflictFree host fuel frame address account w).returns
  refine .bind (hfree.mono fun found w₁ h => ?_)
  obtain ⟨hsame, hfree⟩ := h
  obtain ⟨forward, reverse⟩ := found
  dsimp only
  split
  · refine .pure ⟨_, hfree, ?_⟩
    rw [if_pos ‹_›]
    exact hsame
  · refine (returns_setMapping host fuel frame address account w₁).mono fun _ w₂ h₂ => ?_
    exact h₂.of_sameStore hsame

end

/-! ### Registration -/

theorem sameRegistry_queryRule : QueryRule SameRegistry where
  refl _ _ := rfl
  trans _ _ _ := .trans
  countRead _ _ := rfl
  charge _ _ _ := wp_charge (fun _ _ _ => rfl) fun _ _ _ => rfl

theorem SameRegistry.of_writes {K V : Type} [Encodable K] [Encodable V] {m : Map K V}
    {owner : AccountId} {key : K} {value : V} {w w' : World} (h : m.Writes owner key value w w')
    (htag : m.keyPrefix ≠ 0x72) : SameRegistry w w' := by
  obtain ⟨bytesKey, message, hkey, -, hlookup⟩ := h
  obtain ⟨keyMessage, -, rfl⟩ := Map.makeKey_ok hkey
  intro rest
  rw [hlookup, if_neg]
  intro heq
  have hid : owner.asBytes.length = runtimeAccountId.asBytes.length := by simp
  exact htag (List.cons.inj (List.append_inj (List.cons.inj heq).2 hid).2).1

section

variable (host : Host) (fuel : Nat) (frame : Invoker)

theorem keeps_mapSet {K V : Type} [Encodable K] [Encodable V] {m : Map K V}
    (htag : m.keyPrefix ≠ 0x72) (key : K) (value : V) :
    Exec.Keeps SameRegistry ((m.set key value).run (environment host fuel frame)) := by
  intro w
  refine Exec.wp_mono (fun r w' h => ?_) (m.settles_set host fuel frame key value w)
  cases r with
  | ok _ => exact .of_writes h htag
  | error e => exact .of_sameStore h

theorem keeps_eoaInit (request : InvokeRequest) :
    Exec.Keeps SameRegistry
      ((EthEoaAccount.init frame.env request).run (environment host fuel frame)) := by
  have rule := sameRegistry_queryRule
  unfold EthEoaAccount.init Token.call
  rw [Prog.run_bind]
  refine rule.keeps_bind (rule.keeps_ofExcept _) fun msg => ?_
  split
  · rw [Prog.run_bind, EthEoaAccount.initializeAccount, Prog.run_bind]
    refine rule.keeps_bind (rule.keeps_bind ?_ fun _ => ?_) fun _ => rule.keeps_ofExcept _
    · exact keeps_mapSet host fuel frame (by decide) _ _
    · exact keeps_mapSet host fuel frame (by decide) _ _
  · exact rule.keeps_throw _

theorem keeps_claimAccount (account : AccountId) (codeId : String) :
    Exec.Keeps SameRegistry (Invoker.claimAccount account codeId) := by
  have rule := sameRegistry_queryRule
  refine rule.keeps_bind (Exec.Keeps.read rule.refl _) fun _ => ?_
  refine rule.keeps_bind (rule.keeps_ofExcept _) fun message => ?_
  refine rule.keeps_bind (rule.charge _ _) fun _ => ?_
  refine rule.keeps_bind (fun w => wp_update (fun s hset rest => ?_) fun _ _ => rule.refl w) ?_
  · rw [ExecutionState.lookup_set hset, if_neg]
    intro heq
    cases heq
  · exact fun _ w => rule.refl w

variable (crypto : Crypto)

theorem keeps_registerEoa (account : AccountId) (initMsg : Message) :
    Exec.Keeps SameRegistry (Invoker.registerAccountAtId (withEoaCode crypto host)
      (environment (withEoaCode crypto host) fuel) frame account ethEoaCodeId initMsg) := by
  have rule := sameRegistry_queryRule
  refine rule.keeps_bind (rule.keeps_getAccountCodeIdentifierForAccount _) fun found => ?_
  cases found with
  | some _ => exact rule.keeps_pure _
  | none =>
    refine rule.keeps_bind (rule.keeps_ofExcept _) fun _ => ?_
    refine rule.keeps_bind (keeps_claimAccount account _) fun _ => ?_
    have hcode : Invoker.withCode (withEoaCode crypto host) ethEoaCodeId =
        pure (EthEoaAccount.code crypto) := rfl
    rw [hcode, pure_bind]
    exact rule.keeps_bind (keeps_eoaInit _ fuel _ _) fun _ => rule.keeps_pure _

theorem returns_registerEoa (account : AccountId) (address : Address) (w : World) :
    Exec.Returns ((registerAccountAtId account ethEoaCodeId address).run
      (environment (withEoaCode crypto host) fuel frame)) (fun _ w' => SameRegistry w w') w := by
  unfold registerAccountAtId execAccount
  rw [Prog.run_bind]
  refine .bind (.ofExcept fun initMessage _ => ?_)
  rw [Prog.run_bind]
  refine .bind (.ofExcept fun request hrequest => ?_)
  rw [Prog.run_bind, Prog.run_request]
  refine .bind (Exec.Returns.mono ?_ fun _ _ h => .ofExcept fun _ _ => h)
  cases fuel with
  | zero => exact Exec.Returns.outOfFuel
  | succ fuel =>
    intro response w' hrun
    obtain ⟨w₁, ⟨⟩, hexec⟩ := doExec_ok hrun
    obtain ⟨hfunction, hget⟩ := InvokeRequest.new_spec hrequest
    unfold Invoker.execWithoutTransfers Invoker.handleSystemExec at hexec
    rw [if_pos rfl, if_neg (by rw [hfunction]; decide), if_pos hfunction] at hexec
    refine Exec.Returns.bind (P := fun _ w' => SameRegistry w w')
      (Exec.Returns.ofExcept fun req hreq => ?_) _ _ hexec
    cases hget.symm.trans hreq
    have hkeeps := keeps_registerEoa host fuel frame crypto account initMessage
    refine Exec.Returns.bind fun _ w₂ hdone => ?_
    have hregistry := Exec.wp_done (hkeeps _) hdone
    exact Exec.Returns.ofExcept fun _ _ => hregistry

/-- What resolving an address does: nothing if it is registered, and otherwise it registers the
account that is derived from the address. -/
theorem returns_resolveOrCreateEoaAccount (address : Address) (w : World) :
    Exec.Returns ((resolveOrCreateEoaAccount crypto address).run
        (environment (withEoaCode crypto host) fuel frame))
      (fun account w' => (registeredAccount w address = .ok (some account) ∧ w.SameStore w') ∨
        (registeredAccount w address = .ok none ∧ account = deriveEthEoaAccountId crypto address ∧
          ∃ w₁, SameRegistry w w₁ ∧ Ensured frame.whoami address account w₁ w')) w := by
  unfold resolveOrCreateEoaAccount
  rw [Prog.run_bind]
  have hlookup := (settles_lookupInEnv (withEoaCode crypto host) fuel frame AccountId
    (addrToIdKey address) w).returns
  refine .bind (hlookup.mono fun found w₁ h => ?_)
  obtain ⟨hsame, hfound⟩ := h
  cases found with
  | some account => exact .pure (.inl ⟨hfound, hsame⟩)
  | none =>
    show Exec.Returns (Prog.run _ _) _ w₁
    rw [Prog.run_bind]
    refine .bind ((returns_registerEoa host fuel frame crypto _ _ w₁).mono fun _ w₂ h₂ => ?_)
    rw [Prog.run_bind]
    refine .bind ((returns_ensureEoaMapping _ fuel frame address _ w₂).mono fun _ w₃ h₃ => ?_)
    exact .pure (.inr ⟨hfound, rfl, w₂, (SameRegistry.of_sameStore hsame).trans h₂, h₃⟩)

end

end Eth

end Evolve
