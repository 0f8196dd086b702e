import Mathlib
import Evolve.Eth.Gateway
import Evolve.Eth.RegistryEnds
import Evolve.Stf.Accounts

/-! Runs of the registry: calls that register addresses from the frame of the runtime account, each
undone if it fails.  Its two tables stay inverse to each other. -/

namespace Evolve

open Machine Borsh Effects

/-! ### Calls that are undone if they fail -/

section

variable {α : Type} {m : Run α} {w w' : World}

/-- If it succeeds it has done what the computation does, and if it fails nothing. -/
theorem settles_orRollback {P : α → World → Prop}
    (hext : Exec.Keeps (fun w w' => w.storage.Extends w'.storage) m)
    (hm : Exec.Returns m P w.checkpointed) :
    Exec.Settles (Run.orRollback m) P w.SameStore w := by
  have hgrown := hext w.checkpointed
  have hstart : w.storage.Extends w.checkpointed.storage := .of_eq rfl rfl rfl rfl
  unfold Exec.Settles
  unfold Exec.wp at hgrown ⊢
  rcases hrun : m w.checkpointed with ⟨⟨(e | a), w'⟩⟩ | _ | _
  · rw [hrun] at hgrown
    have hgrown := hstart.trans hgrown
    rw [orRollback_error hrun hgrown]
    exact (ExecutionState.SameExceptMetrics.rollback hgrown).lookup
  · rw [orRollback_ok hrun]
    exact hm a w' hrun
  · have hout : Run.orRollback m w = .outOfFuel := by
      show (Exec.attempt m >>= _) w.checkpointed = _
      rw [Exec.bind_apply, Exec.attempt, hrun]
    rw [hout]
    trivial
  · rw [hrun] at hgrown
    exact hgrown.elim

theorem halts_orRollback (hm : Exec.Halts m) : Exec.Halts (Run.orRollback m) := by
  refine .bind SilentOp.checkpoint.halts fun checkpoint => .bind hm.attempt fun result => ?_
  cases result with
  | error e => exact .bind (halts_restoreCheckpoint _) fun _ => .throw _
  | ok a => exact .pure _

end

namespace Eth

/-! ### Tables that are inverse to each other -/

/-- An address has an account exactly if the account has the address. -/
def Inverse (w : World) : Prop :=
  ∀ address account, registeredAccount w address = .ok (some account) ↔
    registeredAddress w account = .ok (some address)

theorem Inverse.of_sameRegistry {w w' : World} (h : Inverse w) (hsame : SameRegistry w w') :
    Inverse w' := by
  intro address account
  rw [hsame.account, hsame.address]
  exact h address account

/-- `w'` is `w` with the pair in both tables. -/
structure Joins (address : Address) (account : AccountId) (w w' : World) : Prop where
  account_eq : ∀ a, registeredAccount w' a =
    if a = address then .ok (some account) else registeredAccount w a
  address_eq : ∀ i, registeredAddress w' i =
    if i = account then .ok (some address) else registeredAddress w i

theorem Maps.joins {address : Address} {account : AccountId} {w w' : World}
    (h : Maps runtimeAccountId address account w w') : Joins address account w w' := by
  obtain ⟨id, addr, hid, haddr, hlookup⟩ := h
  constructor
  · intro a
    unfold registeredAccount lookupAccountIdInStorage lookupInStorage
    rw [hlookup, if_neg fun hkey =>
      addrToIdKey_ne_idToAddrKey a account (Map.accountStorageKey_inj.mp hkey).symm]
    by_cases ha : a = address
    · subst ha
      rw [if_pos rfl, if_pos rfl]
      show (Message.get id).map some = _
      rw [Message.get_new hid]
      rfl
    · rw [if_neg ha, if_neg fun hkey => ha (addrToIdKey_inj.mp
        (Map.accountStorageKey_inj.mp hkey)).symm]
  · intro i
    unfold registeredAddress lookupAddressInStorage lookupInStorage
    rw [hlookup]
    by_cases hi : i = account
    · subst hi
      rw [if_pos rfl, if_pos rfl]
      show (Message.get addr).map some = _
      rw [Message.get_new haddr]
      rfl
    · rw [if_neg hi, if_neg fun hkey => hi (idToAddrKey_inj.mp
        (Map.accountStorageKey_inj.mp hkey)).symm, if_neg fun hkey =>
          addrToIdKey_ne_idToAddrKey address i (Map.accountStorageKey_inj.mp hkey)]

theorem Ensured.joins {address : Address} {account : AccountId} {w w' : World}
    (h : Ensured runtimeAccountId address account w w') : Joins address account w w' := by
  obtain ⟨⟨forward, reverse⟩, hfree, h⟩ := h
  split at h
  · rename_i hboth
    obtain ⟨i, rfl⟩ := Option.isSome_iff_exists.mp hboth.1
    obtain ⟨a, rfl⟩ := Option.isSome_iff_exists.mp hboth.2
    have hi := hfree.forward_eq i rfl
    have ha := hfree.reverse_eq a rfl
    subst hi ha
    have hregistry := SameRegistry.of_sameStore h
    constructor
    · intro a'
      rw [hregistry.account]
      split
      · rename_i heq
        rw [heq, hfree.forward]
      · rfl
    · intro i'
      rw [hregistry.address]
      split
      · rename_i heq
        rw [heq, hfree.reverse]
      · rfl
  · exact h.joins

theorem Inverse.joins {address : Address} {account : AccountId}
    {found : Option AccountId × Option Address} {w w' : World} (h : Inverse w)
    (hfree : ConflictFree w address account found) (hjoins : Joins address account w w') :
    Inverse w' := by
  intro a i
  rw [hjoins.account_eq, hjoins.address_eq]
  by_cases ha : a = address
  · subst ha
    rw [if_pos rfl]
    by_cases hi : i = account
    · subst hi
      rw [if_pos rfl]
      exact ⟨fun _ => rfl, fun _ => rfl⟩
    · rw [if_neg hi, ← h, hfree.forward]
      refine iff_of_false (fun heq => hi ?_) fun heq => hi (hfree.forward_eq i ?_)
      · cases heq
        rfl
      · exact Except.ok.inj heq
  · rw [if_neg ha]
    by_cases hi : i = account
    · subst hi
      rw [if_pos rfl, h, hfree.reverse]
      refine iff_of_false (fun heq => ha (hfree.reverse_eq a ?_)) fun heq => ha ?_
      · exact Except.ok.inj heq
      · cases heq
        rfl
    · rw [if_neg hi]
      exact h a i

/-! ### Calls -/

inductive RegistryCall where
  | ensure (address : Address) (account : AccountId)
  | resolve (address : Address)

namespace RegistryCall

def address : RegistryCall → Address
  | ensure address _ => address
  | resolve address => address

/-- Both calls are about the account of an address. -/
def program (crypto : Crypto) : RegistryCall → Program AccountId
  | ensure address account => do
    ensureEoaMapping address account
    pure account
  | resolve address => resolveOrCreateEoaAccount crypto address

def run (host : Host) (crypto : Crypto) (fuel : Nat) (frame : Invoker) (call : RegistryCall) :
    Run AccountId :=
  Run.orRollback ((call.program crypto).run (environment (withEoaCode crypto host) fuel frame))

/-- The account is one the call may answer. -/
def Asks (account : AccountId) : RegistryCall → Prop
  | ensure _ given => given = account
  | resolve _ => True

/-- The call would give an address a second account, or an account a second address. -/
def Conflicts (crypto : Crypto) (w : World) : RegistryCall → Prop
  | ensure address account =>
    (∃ other ≠ account, registeredAccount w address = .ok (some other)) ∨
      ∃ other ≠ address, registeredAddress w account = .ok (some other)
  | resolve address => registeredAccount w address = .ok none ∧
      ∃ other ≠ address,
        registeredAddress w (deriveEthEoaAccountId crypto address) = .ok (some other)

end RegistryCall

/-- The worlds after any sequence of calls from frames of the runtime account.  Between the calls
anything may change but the store. -/
inductive Registering (host : Host) (crypto : Crypto) (start : World) : World → Prop
  | refl : Registering host crypto start start
  | call {w w₁ w' : World} {fuel : Nat} {frame : Invoker} {call : RegistryCall}
      {r : SdkResult AccountId} (before : Registering host crypto start w) (same : w.SameStore w₁)
      (whoami : frame.whoami = runtimeAccountId)
      (done : call.run host crypto fuel frame w₁ = .done (r, w')) :
      Registering host crypto start w'

/-! ### What a call does -/

namespace RegistryCall

/-- What a call that succeeds has done: it has found the account of its address, or it has ensured
the mapping, after the registration of the account if the address had none. -/
structure Settled (crypto : Crypto) (call : RegistryCall) (account : AccountId) (w w' : World) :
    Prop where
  asked : call.Asks account
  free : ¬ call.Conflicts crypto w
  effect : (registeredAccount w call.address = .ok (some account) ∧ w.SameStore w') ∨
    ∃ w₁, SameRegistry w w₁ ∧ Ensured runtimeAccountId call.address account w₁ w' ∧
      (registeredAccount w call.address = .ok none ∨ w.SameStore w₁)

section

variable (host : Host) (crypto : Crypto) (fuel : Nat) {frame : Invoker}

theorem returns_ensure (hframe : frame.whoami = runtimeAccountId) (address : Address)
    (account : AccountId) (w : World) :
    Exec.Returns (((ensure address account).program crypto).run
        (environment (withEoaCode crypto host) fuel frame))
      (fun found w' => account = found ∧ Ensured runtimeAccountId address account w w') w := by
  have hreturns := returns_ensureEoaMapping (withEoaCode crypto host) fuel frame address account w
  unfold program
  rw [Prog.run_bind]
  refine .bind (hreturns.mono fun _ w' h => .pure ⟨rfl, ?_⟩)
  rw [hframe] at h
  exact h

theorem returns_program (hframe : frame.whoami = runtimeAccountId) (call : RegistryCall)
    (w : World) :
    Exec.Returns ((call.program crypto).run (environment (withEoaCode crypto host) fuel frame))
      (call.Settled crypto · w) w := by
  cases call with
  | ensure address account =>
    refine (returns_ensure host crypto fuel hframe address account w).mono fun _ w' h => ?_
    obtain ⟨rfl, h⟩ := h
    refine ⟨rfl, ?_, .inr ⟨w, .of_sameStore rfl, h, .inr rfl⟩⟩
    obtain ⟨found, hfree, -⟩ := h
    rintro (⟨other, hne, hother⟩ | ⟨other, hne, hother⟩)
    · exact hne (hfree.forward_eq other (Except.ok.inj (hfree.forward.symm.trans hother)))
    · exact hne (hfree.reverse_eq other (Except.ok.inj (hfree.reverse.symm.trans hother)))
  | resolve address =>
    have hreturns := returns_resolveOrCreateEoaAccount host fuel frame crypto address w
    refine hreturns.mono fun account w' h => ?_
    rcases h with ⟨hfound, hsame⟩ | ⟨hnone, rfl, w₁, hsame, h⟩
    · refine ⟨trivial, fun ⟨hnone, _⟩ => ?_, .inl ⟨hfound, hsame⟩⟩
      cases hfound.symm.trans hnone
    · rw [hframe] at h
      refine ⟨trivial, fun ⟨_, other, hne, hother⟩ => ?_, .inr ⟨w₁, hsame, h, .inl hnone⟩⟩
      obtain ⟨found, hfree, -⟩ := h
      rw [← hsame.address] at hother
      exact hne (hfree.reverse_eq other (Except.ok.inj (hfree.reverse.symm.trans hother)))

theorem extends_program (frame : Invoker) (call : RegistryCall) :
    Exec.Keeps (fun w w' => w.storage.Extends w'.storage)
      ((call.program crypto).run (environment (withEoaCode crypto host) fuel frame)) := by
  have rule := extends_stepRule.callRule (withEoaCode crypto host)
  exact rule.keeps_run (rule.keeps_environment (fun _ _ h => h) fuel) frame _

theorem settles_run (hframe : frame.whoami = runtimeAccountId) (call : RegistryCall) (w : World) :
    Exec.Settles (call.run host crypto fuel frame) (call.Settled crypto · w) w.SameStore w :=
  settles_orRollback (extends_program host crypto fuel frame call)
    ((returns_program host crypto fuel hframe call w.checkpointed).mono
      fun _ _ h => ⟨h.asked, h.free, h.effect⟩)

theorem halts_run (frame : Invoker) (call : RegistryCall) :
    Exec.Halts (call.run host crypto (fuel + 2) frame) := by
  refine halts_orRollback ?_
  cases call with
  | ensure address account =>
    unfold program
    rw [Prog.run_bind]
    exact .bind (halts_ensureEoaMapping _ _ frame address account) fun _ => .pure _
  | resolve address => exact halts_resolveOrCreateEoaAccount host fuel frame crypto address

theorem yields_registered (frame : Invoker) {call : RegistryCall} {account : AccountId} {w : World}
    (hasks : call.Asks account) (hforward : registeredAccount w call.address = .ok (some account))
    (hreverse : registeredAddress w account = .ok (some call.address))
    (hgas : w.gasCounter = .infinite) :
    Exec.Yields
      ((call.program crypto).run (environment (withEoaCode crypto host) (fuel + 1) frame))
      (fun found _ => found = account) w := by
  cases call with
  | ensure address given =>
    obtain rfl : given = account := hasks
    have hfree : ConflictFree w address given (some given, some address) :=
      ⟨hforward, hreverse, fun _ h => (Option.mem_some.mp h).symm,
        fun _ h => (Option.mem_some.mp h).symm⟩
    unfold program ensureEoaMapping
    rw [Prog.run_bind, Prog.run_bind, bind_assoc]
    refine .bind ((yields_ensureMappingConflictFree _ fuel frame hgas hfree).mono ?_)
    rintro _ w₁ ⟨rfl, -⟩
    exact .pure rfl
  | resolve address =>
    show Exec.Yields ((resolveOrCreateEoaAccount crypto address).run _) _ w
    unfold resolveOrCreateEoaAccount
    rw [Prog.run_bind]
    refine .bind ((yields_lookupAccountIdInEnv _ fuel frame hgas hforward).mono ?_)
    rintro _ w₁ ⟨rfl, -⟩
    exact .pure rfl

end

section

variable {crypto : Crypto} {call : RegistryCall} {account : AccountId} {w w' : World}

theorem Settled.inverse (h : call.Settled crypto account w w') (hinverse : Inverse w) :
    Inverse w' := by
  rcases h.effect with ⟨-, hsame⟩ | ⟨w₁, hsame, h, -⟩
  · exact hinverse.of_sameRegistry (.of_sameStore hsame)
  · have hjoins := h.joins
    obtain ⟨found, hfree, -⟩ := h
    exact (hinverse.of_sameRegistry hsame).joins hfree hjoins

theorem Settled.registered (h : call.Settled crypto account w w') (hinverse : Inverse w) :
    registeredAccount w' call.address = .ok (some account) ∧
      registeredAddress w' account = .ok (some call.address) := by
  rcases h.effect with ⟨hfound, hsame⟩ | ⟨w₁, hsame, h, -⟩
  · have hregistry := SameRegistry.of_sameStore hsame
    rw [hregistry.account, hregistry.address]
    exact ⟨hfound, (hinverse call.address account).mp hfound⟩
  · rw [h.joins.account_eq, h.joins.address_eq, if_pos rfl, if_pos rfl]
    exact ⟨rfl, rfl⟩

theorem Settled.sameStore {found : AccountId} (h : call.Settled crypto found w w')
    (hforward : registeredAccount w call.address = .ok (some account))
    (hreverse : registeredAddress w account = .ok (some call.address)) : w.SameStore w' := by
  rcases h.effect with ⟨-, hsame⟩ | ⟨w₁, -, h, hnone | hsame⟩
  · exact hsame
  · cases hforward.symm.trans hnone
  · obtain ⟨both, hfree, h⟩ := h.of_sameStore hsame
    obtain rfl : account = found :=
      hfree.forward_eq account (Except.ok.inj (hfree.forward.symm.trans hforward))
    have hboth : both = (some account, some call.address) :=
      Prod.ext (Except.ok.inj (hfree.forward.symm.trans hforward))
        (Except.ok.inj (hfree.reverse.symm.trans hreverse))
    rw [if_pos (by rw [hboth]; exact ⟨rfl, rfl⟩)] at h
    exact h

end

end RegistryCall

/-! ### What holds over runs -/

/-- The call fails and changes nothing, whatever frame of the runtime account it is made from. -/
def RegistryCall.Refused (host : Host) (crypto : Crypto) (w : World) (call : RegistryCall) : Prop :=
  ∀ fuel frame, frame.whoami = runtimeAccountId →
    ∃ e w', call.run host crypto (fuel + 2) frame w = .done (.error e, w') ∧ w.SameStore w'

/-- After the call has answered `account`, making it again changes nothing, and answers the same
unless the gas does not suffice. -/
def RegistryCall.Idempotent (host : Host) (crypto : Crypto) (w : World) (call : RegistryCall) :
    Prop :=
  ∀ fuel frame account w₁, frame.whoami = runtimeAccountId →
    call.run host crypto fuel frame w = .done (.ok account, w₁) →
    ∀ fuel' frame' w₂, frame'.whoami = runtimeAccountId → w₁.SameStore w₂ →
      ∃ r w₃, call.run host crypto (fuel' + 2) frame' w₂ = .done (r, w₃) ∧ w₂.SameStore w₃ ∧
        (w₂.gasCounter = .infinite → r = .ok account)

/-- Only one of the two directions of the pair is in the tables. -/
def OneSided (w : World) (address : Address) (account : AccountId) : Prop :=
  (registeredAccount w address = .ok (some account) ∧ registeredAddress w account = .ok none) ∨
    (registeredAccount w address = .ok none ∧ registeredAddress w account = .ok (some address))

/-- Ensuring a mapping adds the missing direction if it succeeds, and it does succeed unless the
frame is too deep or there is no gas or room. -/
def CompletesPair (host : Host) (crypto : Crypto) (w : World) (address : Address)
    (account : AccountId) : Prop :=
  ∀ fuel frame, frame.whoami = runtimeAccountId →
    (∀ found w', (RegistryCall.ensure address account).run host crypto fuel frame w =
      .done (.ok found, w') → Joins address account w w') ∧
    (w.Spare 2 → frame.callDepth < maxCallDepth →
      ∃ w', (RegistryCall.ensure address account).run host crypto (fuel + 1) frame w =
        .done (.ok account, w') ∧ Joins address account w w')

variable {host : Host} {crypto : Crypto}

theorem Registering.inverse {start w : World} (hstart : Inverse start)
    (h : Registering host crypto start w) : Inverse w := by
  induction h with
  | refl => exact hstart
  | @call w w₁ w' fuel frame call r _ same whoami done ih =>
    have hinverse := ih.of_sameRegistry (.of_sameStore same)
    have hsettles := Exec.wp_done (RegistryCall.settles_run host crypto fuel whoami call w₁) done
    cases r with
    | ok account => exact RegistryCall.Settled.inverse hsettles hinverse
    | error e => exact hinverse.of_sameRegistry (.of_sameStore hsettles)

theorem RegistryCall.refused_of_conflicts {call : RegistryCall} {w : World}
    (h : call.Conflicts crypto w) : call.Refused host crypto w := by
  intro fuel frame hframe
  obtain ⟨r, w', hrun, hsettles⟩ := (halts_run host crypto fuel frame call).done
    (settles_run host crypto (fuel + 2) hframe call w)
  cases r with
  | ok account => exact absurd h hsettles.free
  | error e => exact ⟨e, w', hrun, hsettles⟩

theorem RegistryCall.idempotent {w : World} (hinverse : Inverse w) (call : RegistryCall) :
    call.Idempotent host crypto w := by
  intro fuel frame account w₁ hframe hrun fuel' frame' w₂ hframe' hsame
  have hsettled := Exec.wp_done (settles_run host crypto fuel hframe call w) hrun
  have hregistry := SameRegistry.of_sameStore hsame
  obtain ⟨hforward, hreverse⟩ := hsettled.registered hinverse
  rw [← hregistry.account] at hforward
  rw [← hregistry.address] at hreverse
  obtain ⟨r, w₃, hagain, hsettles⟩ := (halts_run host crypto fuel' frame' call).done
    (settles_run host crypto (fuel' + 2) hframe' call w₂)
  refine ⟨r, w₃, hagain, ?_, fun hgas => ?_⟩
  · cases r with
    | ok found => exact hsettles.sameStore hforward hreverse
    | error e => exact hsettles
  · obtain ⟨_, w₄, hyields, rfl⟩ := yields_registered host crypto (fuel' + 1) frame'
      (w := w₂.checkpointed) hsettled.asked hforward hreverse hgas
    have hok : call.run host crypto (fuel' + 2) frame' w₂ = .done (.ok _, w₄) :=
      orRollback_ok hyields
    rw [hagain] at hok
    cases hok
    rfl

theorem OneSided.conflictFree {w : World} {address : Address} {account : AccountId}
    (h : OneSided w address account) : ∃ found, ConflictFree w address account found := by
  rcases h with ⟨hforward, hreverse⟩ | ⟨hforward, hreverse⟩
  · exact ⟨(some account, none), hforward, hreverse, fun _ h => (Option.mem_some.mp h).symm,
      fun _ h => (Option.not_mem_none _ h).elim⟩
  · exact ⟨(none, some address), hforward, hreverse, fun _ h => (Option.not_mem_none _ h).elim,
      fun _ h => (Option.mem_some.mp h).symm⟩

theorem run_ensure_of_conflictFree {w : World} {address : Address} {account : AccountId}
    {found : Option AccountId × Option Address} {fuel : Nat} {frame : Invoker}
    (hframe : frame.whoami = runtimeAccountId) (hdepth : frame.callDepth < maxCallDepth)
    (hspare : w.Spare 2) (hfree : ConflictFree w address account found) :
    ∃ w', (RegistryCall.ensure address account).run host crypto (fuel + 1) frame w =
      .done (.ok account, w') ∧ Joins address account w w' := by
  have hsame : w.SameStore w.checkpointed := rfl
  have hspare' : w.checkpointed.Spare 2 := ⟨hspare.gas, hspare.room⟩
  have hfree' : ConflictFree w.checkpointed address account found :=
    hfree.of_sameStore hsame.symm
  obtain ⟨_, w', hrun, hensured⟩ := yields_ensureEoaMapping (withEoaCode crypto host) fuel frame
    hspare' hdepth hfree'
  rw [hframe] at hensured
  refine ⟨w', orRollback_ok ?_, (hensured.of_sameStore hsame).joins⟩
  unfold RegistryCall.program
  rw [Prog.run_bind, Exec.bind_apply, hrun]
  rfl

theorem completesPair_of_oneSided {w : World} {address : Address} {account : AccountId}
    (h : OneSided w address account) : CompletesPair host crypto w address account := by
  intro fuel frame hframe
  constructor
  · intro found w' hrun
    have hsame : w.SameStore w.checkpointed := rfl
    have hsettles := settles_orRollback
      (RegistryCall.extends_program host crypto fuel frame (.ensure address account))
      (RegistryCall.returns_ensure host crypto fuel hframe address account w.checkpointed)
    exact ((Exec.wp_done hsettles hrun).2.of_sameStore hsame).joins
  · intro hspare hdepth
    obtain ⟨found, hfree⟩ := h.conflictFree
    exact run_ensure_of_conflictFree hframe hdepth hspare hfree

/-- No address and no account is registered. -/
def EmptyRegistry (w : World) : Prop :=
  (∀ address, registeredAccount w address = .ok none) ∧
    ∀ account, registeredAddress w account = .ok none

theorem EmptyRegistry.inverse {w : World} (h : EmptyRegistry w) : Inverse w := by
  intro address account
  rw [h.1, h.2]
  exact iff_of_false nofun nofun

/-- Over every sequence of calls the tables stay inverse, a call that contradicts them is refused,
and making a call again changes nothing.  From any tables at all, ensuring a mapping completes a
pair of which they have one direction. -/
theorem registry_stays_inverse {start w : World} (hempty : EmptyRegistry start)
    (h : Registering host crypto start w) :
    Inverse w ∧
      (∀ call : RegistryCall, call.Conflicts crypto w → call.Refused host crypto w) ∧
      (∀ call : RegistryCall, call.Idempotent host crypto w) ∧
      ∀ any address account, OneSided any address account →
        CompletesPair host crypto any address account := by
  have hinverse := h.inverse hempty.inverse
  exact ⟨hinverse, fun _ => RegistryCall.refused_of_conflicts, RegistryCall.idempotent hinverse,
    fun _ _ _ => completesPair_of_oneSided⟩

theorem emptyRegistry_emptyWorld : EmptyRegistry emptyWorld := by
  have hlookup : ∀ key, emptyWorld.storage.lookup key = .ok none := fun key => by
    simp [emptyWorld, ExecutionState.lookup, ExecutionState.new]
  constructor
  · intro address
    unfold registeredAccount lookupAccountIdInStorage lookupInStorage
    rw [hlookup]
    rfl
  · intro account
    unfold registeredAddress lookupAddressInStorage lookupInStorage
    rw [hlookup]
    rfl

/-- From an empty registry an address is given an account, and then it cannot be given another. -/
theorem registry_stays_inverse_after_ensure :
    ∃ w, Registering sampleHost sampleCrypto emptyWorld w ∧
      registeredAccount w (FixedBytes.repeatByte 20 7) = .ok (some (.fromU64 70)) ∧ Inverse w ∧
      (RegistryCall.ensure (FixedBytes.repeatByte 20 7) (.fromU64 71)).Refused sampleHost
        sampleCrypto w := by
  have hempty := emptyRegistry_emptyWorld
  have hfree : ConflictFree emptyWorld (FixedBytes.repeatByte 20 7) (.fromU64 70) (none, none) :=
    ⟨hempty.1 _, hempty.2 _, nofun, nofun⟩
  have hyields : ∃ w, (RegistryCall.ensure (FixedBytes.repeatByte 20 7) (.fromU64 70)).run
      sampleHost sampleCrypto 1 (.newForBeginBlock ⟨1, 0⟩) emptyWorld =
        .done (.ok (.fromU64 70), w) ∧
      Joins (FixedBytes.repeatByte 20 7) (.fromU64 70) emptyWorld w :=
    run_ensure_of_conflictFree rfl (by decide) ⟨rfl, by decide⟩ hfree
  obtain ⟨w, hrun, hjoins⟩ := hyields
  have hregistering := Registering.call .refl rfl rfl hrun
  obtain ⟨hinverse, hrefused, -⟩ := registry_stays_inverse hempty hregistering
  have haccount := hjoins.account_eq (FixedBytes.repeatByte 20 7)
  rw [if_pos rfl] at haccount
  refine ⟨w, hregistering, haccount, hinverse, hrefused _ (.inl ⟨_, ?_, haccount⟩)⟩
  decide

end Eth

end Evolve
