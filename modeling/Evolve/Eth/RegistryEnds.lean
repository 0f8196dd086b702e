import Mathlib
import Evolve.Eth.RegistryCalls
import Evolve.Sdk.StorageCalls
import Evolve.Stf.TraceRule

/-! When the programs of the registry end, and when they succeed: lookups need gas, and what is
written needs room and a frame that is not too deep. -/

namespace Evolve

open Machine Borsh Effects

/-! ### Calls of the storage account that end -/

section

variable (host : Host) (fuel : Nat) (frame : Invoker)

theorem halts_update (f : ExecutionState → SdkResult ExecutionState) :
    Exec.Halts (Run.update f) := by
  intro w
  unfold Run.update
  split <;> rintro ⟨⟩

theorem halts_restoreCheckpoint (checkpoint : Checkpoint) :
    Exec.Halts (Run.restoreCheckpoint checkpoint) := by
  intro w
  unfold Run.restoreCheckpoint
  split <;> rintro ⟨⟩

theorem halts_doExec {nested : Environment} {target : AccountId} {data : InvokeRequest}
    (h : Exec.Halts (Invoker.execWithoutTransfers host nested frame target data [])) :
    Exec.Halts (Invoker.doExec host nested frame target data []) := by
  unfold Invoker.doExec
  split
  · exact .throw _
  · refine .bind SilentOp.checkpoint.halts fun checkpoint => ?_
    have hnone : Exec.Halts (Invoker.handleTransfers host nested frame target []) := .pure ()
    refine .bind hnone.attempt fun transferred => ?_
    cases transferred with
    | error e => exact .bind (halts_restoreCheckpoint _) fun _ => .throw _
    | ok _ =>
      refine .bind h.attempt fun result => ?_
      cases result with
      | error e => exact .bind (halts_restoreCheckpoint _) fun _ => .throw _
      | ok response => exact .pure _

theorem halts_storageSet (request : InvokeRequest) :
    Exec.Halts (environment host (fuel + 1) frame (.doExec storageAccountId request [])) := by
  refine halts_doExec host frame ?_
  unfold Invoker.execWithoutTransfers Invoker.handleStorageExec
  rw [if_neg Map.storageAccountId_ne_runtimeAccountId, if_pos rfl]
  split
  · refine .bind (.ofExcept _) fun _ => .bind (SilentOp.charge _ _).halts fun _ => ?_
    exact .bind (halts_update _) fun _ => .ofExcept _
  · split
    · refine .bind (.ofExcept _) fun _ => .bind (SilentOp.charge _ _).halts fun _ => ?_
      exact .bind (halts_update _) fun _ => .ofExcept _
    · exact .throw _

theorem halts_storageGet (request : InvokeRequest) :
    Exec.Halts (environment host (fuel + 1) frame (.doQuery storageAccountId request)) := by
  show Exec.Halts (Invoker.doQuery host (environment host fuel) frame storageAccountId request)
  unfold Invoker.doQuery
  rw [if_neg Map.storageAccountId_ne_runtimeAccountId, if_pos rfl]
  exact (SilentOp.handleStorageQuery request).halts

end

namespace Eth

/-! ### Programs of the registry that succeed -/

variable {address : Address}

theorem length_of_get_address {m : Message} (h : Message.get m = .ok address) :
    m.length < 256 ^ 4 := by
  rw [Message.length_of_get (Codec.hasSize_fixed 20) h]
  decide

variable {account : AccountId}

theorem length_of_get_accountId {m : Message} (h : Message.get m = .ok account) :
    m.length < 256 ^ 4 := by
  rw [Message.length_of_get (Codec.hasSize_fixed 32).iso h]
  decide

theorem length_addrToIdKey (address : Address) : (addrToIdKey address).length = 41 := by
  unfold addrToIdKey
  rw [List.length_append, address.length_eq]
  rfl

theorem length_idToAddrKey (account : AccountId) : (idToAddrKey account).length = 53 := by
  unfold idToAddrKey
  rw [List.length_append, account.length_asBytes]
  rfl

theorem any_ne_eq_false {α : Type} [DecidableEq α] {o : Option α} {a : α}
    (h : ∀ b ∈ o, b = a) : o.any (· ≠ a) = false := by
  cases o with
  | none => rfl
  | some b => simpa using h b rfl

section

variable (host : Host) (fuel : Nat) (frame : Invoker)

variable {w : World}

theorem yields_lookupInEnv {V : Type} [Encodable V] {key : Bytes} {value : Option V}
    (hshort : ∀ {m : Message} {v : V}, Message.get m = .ok v → m.length < 256 ^ 4)
    (hkey : key.length < 256 ^ 4) (hgas : w.gasCounter = .infinite)
    (hfound : lookupInStorage V w.storage.lookup key = .ok value) :
    Exec.Yields ((lookupInEnv V key).lift.run (environment host (fuel + 1) frame))
      (fun found w' => found = value ∧ w' = w.countRead) w := by
  obtain ⟨stored, hstored, hvalue⟩ := bind_eq_ok hfound
  have hlength : ∀ m ∈ stored, m.length < 256 ^ 4 := by
    rintro m ⟨⟩
    have hdecoded : (Message.get m : SdkResult V).map some = .ok value := hvalue
    cases hget : (Message.get m : SdkResult V) with
    | ok v => exact hshort hget
    | error e =>
      rw [hget] at hdecoded
      cases hdecoded
  obtain ⟨request, hrequest⟩ := StorageGetRequest.new_of_length runtimeAccountId hkey
  unfold lookupInEnv queryAccount
  rw [QueryProgram.lift_bind, Prog.run_bind, QueryProgram.lift_bind, Prog.run_bind, bind_assoc]
  refine .bind (.ofExcept hrequest ?_)
  rw [QueryProgram.lift_bind, Prog.run_bind, bind_assoc, QueryProgram.lift_request,
    Prog.run_request]
  refine .bind ((yields_storageGet host fuel frame hrequest hstored hlength hgas).mono ?_)
  rintro response w' ⟨hresponse, rfl⟩
  exact .bind (.ofExcept hresponse (.ofExcept hvalue ⟨rfl, rfl⟩))

theorem yields_lookupAccountIdInEnv {value : Option AccountId} (hgas : w.gasCounter = .infinite)
    (hfound : registeredAccount w address = .ok value) :
    Exec.Yields ((lookupAccountIdInEnv address).lift.run (environment host (fuel + 1) frame))
      (fun found w' => found = value ∧ w' = w.countRead) w := by
  refine yields_lookupInEnv host fuel frame length_of_get_accountId ?_ hgas hfound
  rw [length_addrToIdKey]
  decide

variable {found : Option AccountId × Option Address}

theorem yields_ensureMappingConflictFree (hgas : w.gasCounter = .infinite)
    (hfree : ConflictFree w address account found) :
    Exec.Yields
      ((ensureMappingConflictFree address account).lift.run (environment host (fuel + 1) frame))
      (fun r w' => r = found ∧ w' = w.countRead.countRead) w := by
  have hkey : (idToAddrKey account).length < 256 ^ 4 := by
    rw [length_idToAddrKey]
    decide
  have hread : w.countRead.gasCounter = .infinite := hgas
  have hreverse : lookupInStorage Address w.countRead.storage.lookup (idToAddrKey account) =
      .ok found.2 := hfree.reverse
  unfold ensureMappingConflictFree
  rw [QueryProgram.lift_bind, Prog.run_bind]
  refine .bind ((yields_lookupAccountIdInEnv host fuel frame hgas hfree.forward).mono ?_)
  rintro forward _ ⟨rfl, rfl⟩
  rw [QueryProgram.lift_bind, Prog.run_bind]
  refine .bind ((yields_lookupInEnv host fuel frame length_of_get_address hkey hread
    hreverse).mono ?_)
  rintro reverse _ ⟨rfl, rfl⟩
  rw [any_ne_eq_false hfree.forward_eq, any_ne_eq_false hfree.reverse_eq]
  exact .pure ⟨rfl, rfl⟩

theorem yields_execStorageSet {key : Bytes} {value : Message} {n : Nat} (hkey : key.length ≤ 53)
    (hvalue : value.length ≤ 32) (hdepth : frame.callDepth < maxCallDepth)
    (hspare : w.Spare (n + 1)) :
    Exec.Yields ((execAccount Unit storageAccountId (StorageSetRequest.mk key value) []).run
      (environment host (fuel + 1) frame)) (fun _ w' => w'.Spare n) w := by
  obtain ⟨request, hrequest⟩ := StorageSetRequest.new_of_length key value (by omega) (by omega)
  have hfullKey : (Invoker.accountStorageKey frame.whoami key).length ≤ maxKeySize := by
    unfold Invoker.accountStorageKey maxKeySize maxStorageKeySize
    rw [List.length_cons, List.length_append, AccountId.length_asBytes]
    omega
  have hshort : value.length ≤ maxValueSize := hvalue.trans (by decide)
  unfold execAccount
  rw [Prog.run_bind]
  refine .bind (.ofExcept hrequest ?_)
  rw [Prog.run_bind, Prog.run_request]
  refine .bind ((yields_storageSet host fuel frame hrequest hfullKey hshort hdepth
    hspare).mono ?_)
  rintro response w' ⟨hresponse, hspare⟩
  exact .ofExcept hresponse hspare

theorem yields_setMapping (hspare : w.Spare 2) (hdepth : frame.callDepth < maxCallDepth)
    (hfree : ConflictFree w address account found) :
    Exec.Yields ((setMapping address account).run (environment host (fuel + 1) frame))
      (fun _ _ => True) w := by
  have hid : Message.new account = .ok account.asBytes := rfl
  have haddress : Message.new address = .ok address.bytes := rfl
  unfold setMapping
  rw [Prog.run_bind]
  refine .bind ((yields_ensureMappingConflictFree host fuel frame hspare.gas hfree).mono ?_)
  rintro _ w₁ ⟨rfl, rfl⟩
  have hspare₁ : World.Spare 2 w.countRead.countRead := ⟨hspare.gas, hspare.room⟩
  dsimp only
  split
  · exact .pure trivial
  · rw [Prog.run_bind]
    refine .bind (.ofExcept hid ?_)
    rw [Prog.run_bind]
    refine .bind ((yields_execStorageSet host fuel frame (by simp [length_addrToIdKey])
      (by simp) hdepth hspare₁).mono fun _ w₂ hspare₂ => ?_)
    rw [Prog.run_bind]
    refine .bind (.ofExcept haddress ?_)
    exact (yields_execStorageSet host fuel frame (by simp [length_idToAddrKey])
      (by simp [address.length_eq]) hdepth hspare₂).mono fun _ _ _ => trivial

theorem yields_ensureEoaMapping (hspare : w.Spare 2) (hdepth : frame.callDepth < maxCallDepth)
    (hfree : ConflictFree w address account found) :
    Exec.Yields ((ensureEoaMapping address account).run (environment host (fuel + 1) frame))
      (fun _ w' => Ensured frame.whoami address account w w') w := by
  have hreturns := returns_ensureEoaMapping host (fuel + 1) frame address account w
  suffices h : Exec.Yields ((ensureEoaMapping address account).run
      (environment host (fuel + 1) frame)) (fun _ _ => True) w from
    (h.and_returns hreturns).mono fun _ _ h => h.2
  unfold ensureEoaMapping
  rw [Prog.run_bind]
  refine .bind ((yields_ensureMappingConflictFree host fuel frame hspare.gas hfree).mono ?_)
  rintro found _ ⟨rfl, rfl⟩
  have hspare₁ : World.Spare 2 w.countRead.countRead := ⟨hspare.gas, hspare.room⟩
  dsimp only
  split
  · exact .pure trivial
  · refine yields_setMapping host fuel frame hspare₁ hdepth (hfree.of_sameStore ?_)
    rfl

end

/-! ### Programs of the registry that end -/

section

variable (host : Host) (fuel : Nat) (frame : Invoker)

theorem halts_lookupInEnv (V : Type) [Encodable V] (key : Bytes) :
    Exec.Halts ((lookupInEnv V key).lift.run (environment host (fuel + 1) frame)) := by
  unfold lookupInEnv queryAccount
  rw [QueryProgram.lift_bind, Prog.run_bind, QueryProgram.lift_bind, Prog.run_bind, bind_assoc]
  refine .bind (.ofExcept _) fun request => ?_
  rw [QueryProgram.lift_bind, Prog.run_bind, bind_assoc, QueryProgram.lift_request,
    Prog.run_request]
  exact .bind (halts_storageGet host fuel frame request) fun _ => .bind (.ofExcept _) fun _ =>
    .ofExcept _

theorem halts_ensureMappingConflictFree (address : Address) (account : AccountId) :
    Exec.Halts
      ((ensureMappingConflictFree address account).lift.run
        (environment host (fuel + 1) frame)) := by
  unfold ensureMappingConflictFree
  rw [QueryProgram.lift_bind, Prog.run_bind]
  refine .bind (halts_lookupInEnv host fuel frame _ _) fun forward => ?_
  rw [QueryProgram.lift_bind, Prog.run_bind]
  refine .bind (halts_lookupInEnv host fuel frame _ _) fun reverse => ?_
  split
  · exact .throw _
  · split
    · exact .throw _
    · exact .pure _

theorem halts_execStorageSet (request : StorageSetRequest) :
    Exec.Halts ((execAccount Unit storageAccountId request []).run
      (environment host (fuel + 1) frame)) := by
  unfold execAccount
  rw [Prog.run_bind]
  refine .bind (.ofExcept _) fun request => ?_
  rw [Prog.run_bind, Prog.run_request]
  exact .bind (halts_storageSet host fuel frame request) fun _ => .ofExcept _

theorem halts_ensureEoaMapping (address : Address) (account : AccountId) :
    Exec.Halts ((ensureEoaMapping address account).run (environment host (fuel + 1) frame)) := by
  have hfree := halts_ensureMappingConflictFree host fuel frame address account
  unfold ensureEoaMapping setMapping
  rw [Prog.run_bind]
  refine .bind hfree fun found => ?_
  dsimp only
  split
  · exact .pure _
  · rw [Prog.run_bind]
    refine .bind hfree fun found => ?_
    split
    · exact .pure _
    · rw [Prog.run_bind]
      refine .bind (.ofExcept _) fun id => ?_
      rw [Prog.run_bind]
      refine .bind (halts_execStorageSet host fuel frame _) fun _ => ?_
      rw [Prog.run_bind]
      exact .bind (.ofExcept _) fun addr => halts_execStorageSet host fuel frame _

theorem halts_mapSet {K V : Type} [Encodable K] [Encodable V] (m : Map K V) (key : K) (value : V) :
    Exec.Halts ((m.set key value).run (environment host (fuel + 1) frame)) := by
  unfold Map.set
  rw [Prog.run_bind]
  refine .bind (.ofExcept _) fun bytesKey => ?_
  rw [Prog.run_bind]
  refine .bind (.ofExcept _) fun message => ?_
  rw [Prog.run_bind]
  refine .bind (.ofExcept _) fun request => ?_
  rw [Prog.run_bind, Prog.run_request]
  exact .bind (halts_storageSet host fuel frame request) fun _ => .pure _

theorem halts_eoaInit (request : InvokeRequest) :
    Exec.Halts ((EthEoaAccount.init frame.env request).run
      (environment host (fuel + 1) frame)) := by
  unfold EthEoaAccount.init Token.call
  rw [Prog.run_bind]
  refine .bind (.ofExcept _) fun msg => ?_
  split
  · rw [Prog.run_bind, EthEoaAccount.initializeAccount, Prog.run_bind]
    exact .bind (.bind (halts_mapSet host fuel frame _ _ _) fun _ =>
      halts_mapSet host fuel frame _ _ _) fun _ => .ofExcept _
  · exact .throw _

variable (crypto : Crypto)

theorem halts_registerAccountAtId (account : AccountId) (initMsg : Message) :
    Exec.Halts (Invoker.registerAccountAtId (withEoaCode crypto host)
      (environment (withEoaCode crypto host) (fuel + 1)) frame account ethEoaCodeId initMsg) := by
  refine .bind (SilentOp.getAccountCodeIdentifierForAccount _).halts fun found => ?_
  cases found with
  | some _ => exact .pure _
  | none =>
    have hclaim : Exec.Halts (Invoker.claimAccount account ethEoaCodeId) :=
      .bind (.read _) fun _ => .bind (.ofExcept _) fun _ => .bind (SilentOp.charge _ _).halts
        fun _ => .bind (halts_update _) fun _ => (SilentOp.note _).halts
    have hcode : Invoker.withCode (withEoaCode crypto host) ethEoaCodeId =
        pure (EthEoaAccount.code crypto) := rfl
    refine .bind (.ofExcept _) fun _ => .bind hclaim fun _ => ?_
    rw [hcode, pure_bind]
    exact .bind (halts_eoaInit _ fuel _ _) fun _ => .pure _

theorem halts_registerEoa (account : AccountId) (address : Address) :
    Exec.Halts ((registerAccountAtId account ethEoaCodeId address).run
      (environment (withEoaCode crypto host) (fuel + 2) frame)) := by
  unfold registerAccountAtId execAccount
  rw [Prog.run_bind]
  refine .bind (.ofExcept _) fun initMessage => ?_
  rw [Prog.run_bind]
  refine .bind_ofExcept fun request hrequest => ?_
  rw [Prog.run_bind, Prog.run_request]
  refine .bind (halts_doExec _ frame ?_) fun _ => .ofExcept _
  obtain ⟨hfunction, hget⟩ := InvokeRequest.new_spec hrequest
  unfold Invoker.execWithoutTransfers Invoker.handleSystemExec
  rw [if_pos rfl, if_neg (by rw [hfunction]; decide), if_pos hfunction]
  refine .bind_ofExcept fun req hreq => ?_
  cases hget.symm.trans hreq
  exact .bind (halts_registerAccountAtId host fuel frame crypto _ _) fun _ => .ofExcept _

theorem halts_resolveOrCreateEoaAccount (address : Address) :
    Exec.Halts ((resolveOrCreateEoaAccount crypto address).run
      (environment (withEoaCode crypto host) (fuel + 2) frame)) := by
  unfold resolveOrCreateEoaAccount
  rw [Prog.run_bind]
  refine .bind (halts_lookupInEnv _ _ frame _ _) fun found => ?_
  cases found with
  | some account => exact .pure _
  | none =>
    show Exec.Halts (Prog.run _ _)
    rw [Prog.run_bind]
    refine .bind (halts_registerEoa host fuel frame crypto _ _) fun _ => ?_
    rw [Prog.run_bind]
    exact .bind (halts_ensureEoaMapping _ _ frame _ _) fun _ => .pure _

end

end Eth

end Evolve
