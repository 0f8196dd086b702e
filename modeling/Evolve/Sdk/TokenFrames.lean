import Mathlib
import Evolve.Sdk.Conservation
import Evolve.Stf.Isolation

/-! The frames of a token in call trees of arbitrary account code.  What a token stores changes only
where its own code writes it, and whose frame that is says what can change. -/

namespace Evolve

open Machine Borsh Effects

/-! ### Programs that store in their own namespace -/

/-- An action of a program in a frame that calls only the storage account.  Before it the world is
in `B`, and what it stores under a key of its own it may store there. -/
def FrameAction (frame : Invoker) (stack : Stack) (B : World → Prop) (K : World → Bytes → Prop) :
    Action → Prop
  | .begins _ w => B w
  | .write inner w _ key _ => B w ∧ ∃ data op suffix,
    inner = .exec frame storageAccountId data [] [] :: .call frame op :: stack ∧
      key = Invoker.accountStorageKey frame.whoami suffix ∧ K w suffix

theorem logs_within {α : Type} {activity : Activity} {stack : Stack} {body : Stack → Traced α}
    {P : Action → Prop} {w : World} (hbegins : P (.begins (activity :: stack) w))
    (hbody : Logged.Logs P (body (activity :: stack)) w) :
    Logged.Logs P (Traced.within activity stack body) w := by
  refine Logged.logs_bind.mpr ⟨Logged.logs_mark hbegins, ?_⟩
  rintro _ _ ⟨⟩
  exact hbody

section

variable (host : Host) (fuel : Nat) {frame : Invoker} {stack : Stack}

theorem logs_bind_program {α β : Type} {p : Program α} {f : α → Program β} {P : Action → Prop}
    {w : World} (hp : Logged.Logs P (p.runLogged (tracedEnvironment host fuel stack frame)) w)
    (hf : Exec.Returns (p.run (environment host fuel frame)) (fun a w' =>
      Logged.Logs P ((f a).runLogged (tracedEnvironment host fuel stack frame)) w') w) :
    Logged.Logs P ((p >>= f).runLogged (tracedEnvironment host fuel stack frame)) w := by
  refine Prog.logs_runLogged_bind hp ?_
  rw [show (fun op => (tracedEnvironment host fuel stack frame op).exec) =
    environment host fuel frame from funext (exec_tracedEnvironment host fuel stack frame)]
  exact hf

theorem logs_bind_ofExcept {α β : Type} {r : SdkResult α} {f : α → Program β} {P : Action → Prop}
    {w : World} (h : ∀ a, r = .ok a →
      Logged.Logs P ((f a).runLogged (tracedEnvironment host fuel stack frame)) w) :
    Logged.Logs P ((Prog.ofExcept r >>= f).runLogged (tracedEnvironment host fuel stack frame)) w :=
  logs_bind_program host fuel (Logged.logs_lift _ _) (Exec.Returns.ofExcept h)

variable {B : World → Prop} {K : World → Bytes → Prop} {w : World}

theorem logs_storageGet (request : InvokeRequest) (hB : B w) :
    Logged.Logs (FrameAction frame stack B K)
      (tracedEnvironment host fuel stack frame (.doQuery storageAccountId request)) w := by
  cases fuel with
  | zero => exact Logged.logs_lift _ _
  | succ fuel =>
    refine logs_within hB ?_
    dsimp only [Traced.doQuery]
    rw [if_neg Map.storageAccountId_ne_runtimeAccountId, if_pos rfl]
    exact Logged.logs_lift _ _

theorem logs_chargedSet {inner : Stack} {key : Bytes} {value : Message} {P : Action → Prop}
    (h : ∀ w', P (.write inner w w' key (some value))) :
    Logged.Logs P (Traced.chargedSet inner key value) w := by
  unfold Logged.Logs Traced.chargedSet Logged.observe
  dsimp only
  split
  · rename_i r w' _
    cases r with
    | error e => exact fun _ hmem => (List.not_mem_nil hmem).elim
    | ok _ =>
      intro action haction
      rw [List.mem_singleton.mp haction]
      exact h w'
  · exact fun _ hmem => (List.not_mem_nil hmem).elim

theorem logs_handleStorageExec {key : Bytes} {value : Message} {request : InvokeRequest}
    {op : EnvOp} (hrequest : InvokeRequest.new (StorageSetRequest.mk key value) = .ok request)
    (hB : B w) (hK : K w key) :
    Logged.Logs (FrameAction frame stack B K) (Traced.handleStorageExec
      (.exec frame storageAccountId request [] [] :: .call frame op :: stack) frame request) w := by
  obtain ⟨hfunction, hget⟩ := InvokeRequest.new_spec hrequest
  unfold Traced.handleStorageExec
  rw [if_pos hfunction]
  refine Logged.logs_bind.mpr ⟨Logged.logs_lift _ _, ?_⟩
  refine Exec.Returns.ofExcept fun storageSet hget' => ?_
  cases hget.symm.trans hget'
  refine Logged.logs_bind.mpr ⟨logs_chargedSet fun _ => ?_, fun _ _ _ => Logged.logs_lift _ _⟩
  exact ⟨hB, request, op, key, rfl, rfl, hK⟩

theorem logs_storageSet {key : Bytes} {value : Message} {request : InvokeRequest}
    (hrequest : InvokeRequest.new (StorageSetRequest.mk key value) = .ok request)
    (hB : ∀ w₁, w.SameStore w₁ → B w₁) (hK : ∀ w₁, w.SameStore w₁ → K w₁ key) :
    Logged.Logs (FrameAction frame stack B K)
      (tracedEnvironment host fuel stack frame (.doExec storageAccountId request [])) w := by
  cases fuel with
  | zero => exact Logged.logs_lift _ _
  | succ fuel =>
    refine logs_within (hB w rfl) ?_
    dsimp only [Traced.doExec]
    split
    · exact Logged.logs_lift _ _
    · refine Logged.logs_bind.mpr ⟨Logged.logs_lift _ _, ?_⟩
      rintro checkpoint w₁ ⟨⟩
      refine Logged.logs_bind.mpr ⟨fun _ hmem => (List.not_mem_nil hmem).elim, ?_⟩
      rintro _ _ ⟨⟩
      refine Logged.logs_bind.mpr
        ⟨Logged.logs_attempt (logs_within (hB _ rfl) ?_), fun result w₂ _ => ?_⟩
      · rw [if_neg Map.storageAccountId_ne_runtimeAccountId, if_pos rfl]
        exact logs_handleStorageExec hrequest (hB _ rfl) (hK _ rfl)
      · cases result with
        | error e =>
          exact Logged.logs_bind.mpr ⟨Logged.logs_lift _ _, fun _ _ _ => Logged.logs_lift _ _⟩
        | ok response => exact Logged.logs_lift _ _

variable {I V : Type} [Encodable I] [Encodable V]

theorem logs_set (m : Map I V) (key : I) (value : V) (hB : ∀ w₁, w.SameStore w₁ → B w₁)
    (hK : ∀ bytes, m.makeKey key = .ok bytes → ∀ w₁, w.SameStore w₁ → K w₁ bytes) :
    Logged.Logs (FrameAction frame stack B K)
      ((m.set key value).runLogged (tracedEnvironment host fuel stack frame)) w := by
  refine logs_bind_ofExcept host fuel fun bytesKey hkey => ?_
  refine logs_bind_ofExcept host fuel fun message _ => ?_
  refine logs_bind_ofExcept host fuel fun request hrequest => ?_
  refine logs_bind_program host fuel (Prog.logs_request ?_) fun _ _ _ => Logged.logs_lift _ _
  exact logs_storageSet host fuel hrequest hB (hK bytesKey hkey)

theorem logs_mayGet (m : Map I V) (key : I) (hB : B w) :
    Logged.Logs (FrameAction frame stack B K)
      ((m.mayGet frame.env key).lift.runLogged (tracedEnvironment host fuel stack frame)) w := by
  unfold Map.mayGet
  rw [QueryProgram.lift_bind]
  refine logs_bind_ofExcept host fuel fun bytesKey _ => ?_
  rw [QueryProgram.lift_bind]
  refine logs_bind_ofExcept host fuel fun request _ => ?_
  rw [QueryProgram.lift_bind, QueryProgram.lift_request]
  refine logs_bind_program host fuel (Prog.logs_request (logs_storageGet host fuel request hB)) ?_
  intro response w' _
  rw [QueryProgram.lift_bind]
  exact logs_bind_ofExcept host fuel fun _ _ => Logged.logs_lift _ _

theorem logs_update (m : Map I V) (key : I) (f : Option V → SdkResult V)
    (hB : ∀ w₁, w.SameStore w₁ → B w₁)
    (hK : ∀ bytes, m.makeKey key = .ok bytes → ∀ w₁, w.SameStore w₁ → K w₁ bytes) :
    Logged.Logs (FrameAction frame stack B K)
      ((m.update frame.env key f).runLogged (tracedEnvironment host fuel stack frame)) w := by
  refine logs_bind_program host fuel (logs_mayGet host fuel m key (hB w rfl)) ?_
  refine (m.returns_mayGet host fuel frame key w).mono fun stored w₁ h => ?_
  obtain ⟨hsame, -⟩ := h
  refine logs_bind_ofExcept host fuel fun value _ => ?_
  refine logs_bind_program host fuel (logs_set host fuel m key value ?_ ?_) fun _ _ _ =>
    Logged.logs_lift _ _
  · exact fun w₂ h => hB w₂ (hsame.trans h)
  · exact fun bytes hkey w₂ h => hK bytes hkey w₂ (hsame.trans h)

end

namespace Token

/-! ### What code of a token does -/

def managerOf (token : AccountId) (w : World) : SdkResult (Option (Option AccountId)) :=
  supplyManager.read w.storage token ()

/-- What the code of a token does that `sender` calls, whether it succeeds or fails. -/
inductive Step (token sender : AccountId) (w : World) : World → Prop
  | same {w' : World} (same : w.SameStore w') : Step token sender w w'
  | withdraws {w' : World} {x : U128}
      (writes : balances.Writes token sender (balanceOf token w sender - x) w w') :
      Step token sender w w'
  | transfers {w₁ w' : World} {x : U128} {recipient : AccountId}
      (le : x.toNat ≤ (balanceOf token w sender).toNat)
      (withdraws : balances.Writes token sender (balanceOf token w sender - x) w w₁)
      (deposits : balances.Writes token recipient (balanceOf token w₁ recipient + x) w₁ w') :
      Step token sender w w'
  | manages {w₁ w' : World} {account : AccountId} {balance : U128}
      (manager : managerOf token w = .ok (some (some sender)))
      (writes : balances.Writes token account balance w w₁)
      (supply : w₁.SameStore w' ∨ ∃ total, totalSupply.Writes token () total w₁ w') :
      Step token sender w w'

variable {account : AccountId}

section

variable {token sender : AccountId} {w w' : World}

theorem managerOf_congr (h : w.SameStore w') : managerOf token w' = managerOf token w :=
  supplyManager.read_congr h token ()

theorem managerOf_writes {I V : Type} [Encodable I] [Encodable V] {m : Map I V} {key : I}
    {value : V} (h : m.Writes token key value w w') (hne : supplyManager.keyPrefix ≠ m.keyPrefix) :
    managerOf token w' = managerOf token w :=
  h.read_otherPrefix supplyManager hne ()

theorem Step.manager (h : Step token sender w w') : managerOf token w' = managerOf token w := by
  cases h with
  | same same => exact managerOf_congr same
  | withdraws writes => exact managerOf_writes writes (by decide)
  | transfers _ withdraws deposits =>
    rw [managerOf_writes deposits (by decide), managerOf_writes withdraws (by decide)]
  | manages _ writes supply =>
    rcases supply with hsame | ⟨total, hsupply⟩
    · rw [managerOf_congr hsame, managerOf_writes writes (by decide)]
    · rw [managerOf_writes hsupply (by decide), managerOf_writes writes (by decide)]

theorem Step.of_sameStore {w₁ : World} (hsame : w.SameStore w₁) (h : Step token sender w₁ w') :
    Step token sender w w' := by
  have hbalance : balanceOf token w₁ sender = balanceOf token w sender := amount_congr hsame sender
  cases h with
  | same same => exact .same (hsame.trans same)
  | withdraws writes =>
    rw [hbalance] at writes
    exact .withdraws (writes.of_sameStore hsame)
  | transfers le withdraws deposits =>
    rw [hbalance] at le withdraws
    exact .transfers le (withdraws.of_sameStore hsame) deposits
  | manages manager writes supply =>
    rw [managerOf_congr hsame] at manager
    exact .manages manager (writes.of_sameStore hsame) supply

/-- Nobody but the holder and the supply manager takes from a balance. -/
theorem Step.balance_le (h : Step token sender w w')
    (hsum : ∑ account, (balanceOf token w account).toNat < 2 ^ 128)
    (hmanager : managerOf token w ≠ .ok (some (some sender))) (haccount : account ≠ sender) :
    (balanceOf token w account).toNat ≤ (balanceOf token w' account).toNat := by
  have hother : ∀ {value : U128} {w₁ : World}, balances.Writes token sender value w w₁ →
      balanceOf token w₁ account = balanceOf token w account := fun hwrites => by
    rw [balanceOf, amount_writes hwrites, if_neg haccount]
    rfl
  cases h with
  | same same => exact (congrArg BitVec.toNat (amount_congr same account)).ge
  | withdraws writes => exact (congrArg BitVec.toNat (hother writes)).ge
  | @transfers w₁ _ x recipient le withdraws deposits =>
    rw [balanceOf, balanceOf, amount_writes deposits]
    split
    · rename_i hrecipient
      subst hrecipient
      -- the two balances together are at most the sum of all, so nothing wraps
      have htwo : (balanceOf token w account).toNat + (balanceOf token w sender).toNat ≤
          ∑ account, (balanceOf token w account).toNat :=
        Finset.add_le_sum (f := fun account => (balanceOf token w account).toNat)
          (fun _ _ => Nat.zero_le _) (Finset.mem_univ account) (Finset.mem_univ sender) haccount
      rw [hother withdraws, BitVec.toNat_add, Nat.mod_eq_of_lt (by omega)]
      exact Nat.le_add_right _ _
    · exact (congrArg BitVec.toNat (hother withdraws)).ge
  | manages manager => exact absurd manager hmanager

end

section

variable (host : Host) (fuel : Nat) {frame : Invoker} {w : World} {P : World → Prop}

theorem settles_call {α : Type} [Encodable α] {request : InvokeRequest} {f : α → Program Unit}
    (hP : P w) (hf : ∀ msg, Exec.Settles ((f msg).run (environment host fuel frame))
      (fun _ => P) P w) :
    Exec.Settles ((call frame.env request f).run (environment host fuel frame)) (fun _ => P) P
      w := by
  unfold call
  rw [Prog.run_bind]
  refine .bind (.ofExcept (fun msg _ => ?_) hP)
  split
  · rw [Prog.run_bind]
    exact .bind ((hf msg).mono fun _ w' h => .ofExcept (fun _ _ => h) h)
  · exact .throw hP

theorem settles_asSupplyManager {p : Program Unit} (hP : ∀ w', w.SameStore w' → P w')
    (hp : ∀ w₁, w.SameStore w₁ → managerOf frame.whoami w = .ok (some (some frame.sender)) →
      Exec.Settles (p.run (environment host fuel frame)) (fun _ => P) P w₁) :
    Exec.Settles ((asSupplyManager frame.env p).run (environment host fuel frame))
      (fun _ => P) P w := by
  unfold asSupplyManager
  rw [Prog.run_bind]
  refine .bind (((supplyManager.settles_get host fuel frame () w).mono_error hP).mono ?_)
  rintro manager w₁ ⟨hsame, hread⟩
  split
  · exact .throw (hP w₁ hsame)
  · rename_i hsender
    rw [not_not.mp hsender] at hread
    exact hp w₁ hsame hread

/-- Changing a balance and then the supply, as the supply manager may. -/
theorem settles_manages {p q : Program U128}
    (hmanager : managerOf frame.whoami w = .ok (some (some frame.sender)))
    (hp : Exec.Settles (p.run (environment host fuel frame))
      (fun _ w₁ => ∃ balance, balances.Writes frame.whoami account balance w w₁) w.SameStore w)
    (hq : ∀ w₁, Exec.Settles (q.run (environment host fuel frame))
      (fun _ w' => ∃ total, totalSupply.Writes frame.whoami () total w₁ w') w₁.SameStore w₁) :
    Exec.Settles ((do let _ ← p; let _ ← q : Program Unit).run (environment host fuel frame))
      (fun _ => Step frame.whoami frame.sender w) (Step frame.whoami frame.sender w) w := by
  rw [Prog.run_bind]
  refine .bind ((hp.mono_error fun _ => .same).mono ?_)
  rintro _ w₁ ⟨balance, hbalance⟩
  rw [Prog.run_bind]
  refine .bind (((hq w₁).mono_error fun w' h => ?_).mono fun _ w' h => ?_)
  · exact .manages hmanager hbalance (.inl h)
  · exact .pure (.manages hmanager hbalance (.inr h))

theorem settles_transfer (msg : TransferMsg) :
    Exec.Settles ((transfer frame.env msg).run (environment host fuel frame))
      (fun _ => Step frame.whoami frame.sender w) (Step frame.whoami frame.sender w) w := by
  unfold transfer
  rw [Prog.run_bind]
  have hsub := settles_sub host fuel (Eq.refl frame.whoami) balances frame.sender
    errNotEnoughBalance msg.amount w
  refine .bind ((hsub.mono_error fun _ => .same).mono ?_)
  rintro _ w₁ ⟨hle, hwithdraws⟩
  rw [Prog.run_bind]
  have hadd := settles_add host fuel (Eq.refl frame.whoami) balances msg.toAccount msg.amount w₁
  refine .bind ((hadd.mono_error fun w' h => ?_).mono fun _ w' h => ?_)
  · exact .withdraws (hwithdraws.trans_sameStore h)
  · exact .pure (.transfers hle hwithdraws h)

theorem settles_execute (request : InvokeRequest) (w : World) :
    Exec.Settles ((execute frame.env request).run (environment host fuel frame))
      (fun _ => Step frame.whoami frame.sender w) (Step frame.whoami frame.sender w) w := by
  unfold execute
  have hsame : Step frame.whoami frame.sender w w := .same (.refl w)
  split
  · refine settles_call host fuel hsame fun msg => ?_
    refine settles_asSupplyManager host fuel (fun _ => .same) fun w₁ h hmanager => ?_
    rw [← managerOf_congr h] at hmanager
    have hmanages := settles_manages host fuel hmanager
      ((settles_add host fuel rfl balances msg.recipient msg.amount w₁).mono fun _ _ h => ⟨_, h⟩)
      fun w₂ => (settles_add host fuel rfl totalSupply () msg.amount w₂).mono fun _ _ h => ⟨_, h⟩
    exact (hmanages.mono_error fun _ => .of_sameStore h).mono fun _ _ => .of_sameStore h
  · split
    · refine settles_call host fuel hsame fun msg => ?_
      refine settles_asSupplyManager host fuel (fun _ => .same) fun w₁ h hmanager => ?_
      rw [← managerOf_congr h] at hmanager
      have hmanages := settles_manages host fuel hmanager
        ((settles_sub host fuel rfl balances msg.fromAccount errUnderflow msg.amount w₁).mono
          fun _ _ h => ⟨_, h.2⟩)
        fun w₂ => (settles_sub host fuel rfl totalSupply () errUnderflow msg.amount w₂).mono
          fun _ _ h => ⟨_, h.2⟩
      exact (hmanages.mono_error fun _ => .of_sameStore h).mono fun _ _ => .of_sameStore h
    · split
      · exact settles_call host fuel hsame (settles_transfer host fuel)
      · exact .throw hsame

theorem step_execute {request : InvokeRequest} {w w' : World} {r : SdkResult InvokeResponse}
    (h : (execute frame.env request).run (environment host fuel frame) w = .done (r, w')) :
    Step frame.whoami frame.sender w w' := by
  have hsettles : Exec.Settles ((execute frame.env request).run (environment host fuel frame)) _ _
    w := settles_execute host fuel request w
  cases r with
  | error e => exact hsettles.fails h
  | ok response => exact hsettles.returns response w' h

end

/-! ### What code of a token stores -/

/-- What the code of a token may store in `w` for its sender: anything but the supply manager, and
the supply for the supply manager only. -/
def MayStore (token sender : AccountId) (w : World) (suffix : Bytes) : Prop :=
  suffix ≠ [supplyManager.keyPrefix] ∧
    (suffix = [totalSupply.keyPrefix] → managerOf token w = .ok (some (some sender)))

theorem mayStore_balance {token sender : AccountId} {w : World} {suffix : Bytes}
    (h : balances.makeKey account = .ok suffix) : MayStore token sender w suffix := by
  obtain ⟨message, -, rfl⟩ := Map.makeKey_ok h
  exact ⟨nofun, nofun⟩

theorem mayStore_supply {token sender : AccountId} {w : World} {suffix : Bytes}
    (h : totalSupply.makeKey () = .ok suffix)
    (hmanager : managerOf token w = .ok (some (some sender))) :
    MayStore token sender w suffix := by
  cases h
  exact ⟨nofun, fun _ => hmanager⟩

/-- What the code of a token does in a frame that it entered in `w`. -/
abbrev OwnAction (frame : Invoker) (stack : Stack) (w : World) : Action → Prop :=
  FrameAction frame stack (managerOf frame.whoami · = managerOf frame.whoami w)
    (MayStore frame.whoami frame.sender)

section

variable (host : Host) (fuel : Nat) {frame : Invoker} {stack : Stack} {w w₁ : World}

theorem logs_call {α : Type} [Encodable α] {request : InvokeRequest} {f : α → Program Unit}
    {P : Action → Prop} (hf : ∀ msg, Logged.Logs P
      ((f msg).runLogged (tracedEnvironment host fuel stack frame)) w) :
    Logged.Logs P ((call frame.env request f).runLogged (tracedEnvironment host fuel stack frame))
      w := by
  refine logs_bind_ofExcept host fuel fun msg _ => ?_
  split
  · exact logs_bind_program host fuel (hf msg) fun _ _ _ => Logged.logs_lift _ _
  · exact Logged.logs_lift _ _

theorem logs_asSupplyManager {p : Program Unit}
    (hp : ∀ w₁, managerOf frame.whoami w₁ = managerOf frame.whoami w →
      managerOf frame.whoami w = .ok (some (some frame.sender)) →
        Logged.Logs (OwnAction frame stack w)
          (p.runLogged (tracedEnvironment host fuel stack frame)) w₁) :
    Logged.Logs (OwnAction frame stack w)
      ((asSupplyManager frame.env p).runLogged (tracedEnvironment host fuel stack frame)) w := by
  refine logs_bind_program host fuel ?_ ?_
  · unfold Map.get
    rw [QueryProgram.lift_bind]
    refine logs_bind_program host fuel (logs_mayGet host fuel supplyManager () rfl) ?_
    rintro (_ | _) w' - <;> exact Logged.logs_lift _ _
  · refine (supplyManager.returns_get host fuel frame () w).mono ?_
    rintro manager w₁ ⟨hsame, hread⟩
    split
    · exact Logged.logs_lift _ _
    · rename_i hsender
      rw [not_not.mp hsender] at hread
      exact hp w₁ (managerOf_congr hsame) hread

theorem logs_balances (account : AccountId) (f : Option U128 → SdkResult U128)
    (hw : managerOf frame.whoami w₁ = managerOf frame.whoami w) :
    Logged.Logs (OwnAction frame stack w) ((balances.update frame.env account f).runLogged
      (tracedEnvironment host fuel stack frame)) w₁ :=
  logs_update host fuel balances account f (fun _ h => (managerOf_congr h).trans hw)
    fun _ hkey _ _ => mayStore_balance hkey

theorem logs_totalSupply (f : Option U128 → SdkResult U128)
    (hw : managerOf frame.whoami w₁ = managerOf frame.whoami w)
    (hmanager : managerOf frame.whoami w = .ok (some (some frame.sender))) :
    Logged.Logs (OwnAction frame stack w) ((totalSupply.update frame.env () f).runLogged
      (tracedEnvironment host fuel stack frame)) w₁ :=
  logs_update host fuel totalSupply () f (fun _ h => (managerOf_congr h).trans hw)
    fun _ hkey _ h => mayStore_supply hkey ((managerOf_congr h).trans (hw.trans hmanager))

theorem returns_balances (account : AccountId) (f : Option U128 → SdkResult U128)
    (hw : managerOf frame.whoami w₁ = managerOf frame.whoami w) :
    Exec.Returns ((balances.update frame.env account f).run (environment host fuel frame))
      (fun _ w' => managerOf frame.whoami w' = managerOf frame.whoami w) w₁ := by
  refine (balances.returns_update host fuel frame account f w₁).mono ?_
  rintro _ w' ⟨_, -, -, hwrites⟩
  exact (managerOf_writes hwrites (by decide)).trans hw

theorem logs_manages (account : AccountId) (f g : Option U128 → SdkResult U128) :
    Logged.Logs (OwnAction frame stack w) ((asSupplyManager frame.env (do
      let _ ← balances.update frame.env account f
      let _ ← totalSupply.update frame.env () g)).runLogged
        (tracedEnvironment host fuel stack frame)) w := by
  refine logs_asSupplyManager host fuel fun w₁ hw hmanager => ?_
  refine logs_bind_program host fuel (logs_balances host fuel account f hw) ?_
  refine (returns_balances host fuel account f hw).mono fun _ w₂ hw₂ => ?_
  exact logs_bind_program host fuel (logs_totalSupply host fuel g hw₂ hmanager)
    fun _ _ _ => Logged.logs_lift _ _

theorem logs_transfer (msg : TransferMsg) :
    Logged.Logs (OwnAction frame stack w) ((transfer frame.env msg).runLogged
      (tracedEnvironment host fuel stack frame)) w := by
  refine logs_bind_program host fuel (logs_balances host fuel _ _ rfl) ?_
  refine (returns_balances host fuel _ _ rfl).mono fun _ w₁ hw => ?_
  exact logs_bind_program host fuel (logs_balances host fuel _ _ hw)
    fun _ _ _ => Logged.logs_lift _ _

theorem logs_execute (request : InvokeRequest) (w : World) :
    Logged.Logs (OwnAction frame stack w) ((execute frame.env request).runLogged
      (tracedEnvironment host fuel stack frame)) w := by
  unfold execute
  split
  · exact logs_call host fuel fun msg => logs_manages host fuel msg.recipient _ _
  · split
    · exact logs_call host fuel fun msg => logs_manages host fuel msg.fromAccount _ _
    · split
      · exact logs_call host fuel (logs_transfer host fuel)
      · exact Logged.logs_lift _ _

end

/-! ### Call trees -/

/-- A frame of the token runs its code, and does not initialise it again. -/
def KeepsCode (token : AccountId) (a : Activity) : Prop :=
  a.opensFrame = true → a.frame.whoami = token →
    ∃ entry request, entry ≠ .init ∧ a = .code entry a.frame code request

/-- A write into the namespace of the token is made by its code in a frame of the token, which may
store what it writes. -/
def OwnWrite (token : AccountId) : Action → Prop
  | .begins _ _ => True
  | .write stack w _ key _ => ∀ suffix, key = Invoker.accountStorageKey token suffix →
    ∃ frame data op request rest,
      stack = .exec frame storageAccountId data [] [] :: .call frame op ::
        .code .execute frame code request :: rest ∧
      frame.whoami = token ∧ MayStore token frame.sender w suffix

/-- What the actions of a call tree do to the token. -/
structure Framed (token : AccountId) (w : World) (actions : List Action) (last : Option World) :
    Prop where
  own : ∀ action ∈ actions, OwnWrite token action
  manager : ∀ action ∈ actions, managerOf token action.before = managerOf token w
  last : ∀ w' ∈ last, managerOf token w' = managerOf token w

def KeepsFramed (token : AccountId) (w : World) (actions : List Action) (last : Option World) :
    Prop :=
  (∀ action ∈ actions, ∀ a ∈ action.stack, KeepsCode token a) → Framed token w actions last

/-- The stack can arise in a call tree, and the token is not executed in it. -/
structure Outside (Root : Stack → Prop) (token : AccountId) (stack : Stack) : Prop where
  live : Live Root stack
  outside : ∀ a ∈ stack, a.executes token = false

section

variable {Root : Stack → Prop} {token : AccountId} {stack : Stack} {w w' : World}

theorem managerOf_of_lookup (h : w'.storage.lookup
      (Invoker.accountStorageKey token [supplyManager.keyPrefix]) =
    w.storage.lookup (Invoker.accountStorageKey token [supplyManager.keyPrefix])) :
    managerOf token w' = managerOf token w := by
  have hread : ∀ w : World, managerOf token w = Map.decodeValue =<<
      w.storage.lookup (Invoker.accountStorageKey token [supplyManager.keyPrefix]) := fun _ => rfl
  rw [hread, hread, h]

theorem Framed.of_sameStore (h : w.SameStore w') : Framed token w [] (some w') where
  own _ h := (List.not_mem_nil h).elim
  manager _ h := (List.not_mem_nil h).elim
  last := by
    rintro _ ⟨⟩
    exact managerOf_congr h

theorem Outside.cons {a : Activity} (h : Outside Root token stack) (live : Live Root (a :: stack))
    (ha : a.executes token = false) : Outside Root token (a :: stack) :=
  ⟨live, List.forall_mem_cons.mpr ⟨ha, h.outside⟩⟩

/-- Outside its code nobody writes into the namespace of the token. -/
theorem Outside.not_writes (hroot : ∀ {stack}, Root stack → ∃ entry frame code request,
      stack = [.code entry frame code request])
    (h : Outside Root token stack) (hkeeps : ∀ a ∈ stack, KeepsCode token a) (suffix : Bytes) :
    ¬ stack.Writes (Invoker.accountStorageKey token suffix) := by
  intro hwrites
  have hstarts : ∀ {stack}, Root stack → Starts stack := fun hr => by
    obtain ⟨_, _, _, _, rfl⟩ := hroot hr
    exact .code
  obtain ⟨frame, data, funds, paid, rest, rfl, rfl, -⟩ := hwrites.namespace
  obtain ⟨_, _, _, _, rfl, hlive, -⟩ := h.live.exec_cases hstarts
  have hinner : ∀ {a b c : Activity} (rest : Stack), c ∈ a :: b :: c :: rest := by simp
  rcases hlive.doExec_cases hstarts with ⟨entry, code, request, _, rfl, hentry⟩ |
    ⟨outer, _, rfl, -, -, rfl⟩ | ⟨phase, rfl⟩
  · obtain ⟨_, _, hinit, heq⟩ := hkeeps _ (hinner _) rfl rfl
    cases heq
    cases entry with
    | init => exact hinit rfl
    | execute => simpa [Activity.executes] using h.outside
    | query => exact hentry rfl
  · obtain ⟨_, _, -, heq⟩ := hkeeps _ (hinner _) rfl rfl
    cases heq
  · have hphase := hlive.tail fun hr => by obtain ⟨_, _, _, _, ⟨⟩⟩ := hroot hr
    cases hphase with
    | root hr => obtain ⟨_, _, _, _, ⟨⟩⟩ := hroot hr

theorem keepsFramed_rule (hroot : ∀ {stack}, Root stack → ∃ entry frame code request,
      stack = [.code entry frame code request]) (token : AccountId) :
    WriteRule (fun _ => Outside Root token) (KeepsFramed token) where
  refl w _ := .of_sameStore (.refl w)
  trans a l b l' o h₁ h₂ hkeeps := by
    obtain ⟨hl, hl'⟩ := List.forall_mem_append.mp hkeeps
    have first := h₁ hl
    have second := h₂ hl'
    have hb : managerOf token b = managerOf token a := first.last b rfl
    refine ⟨List.forall_mem_append.mpr ⟨first.own, second.own⟩, ?_, fun w' hw' => ?_⟩
    · refine List.forall_mem_append.mpr ⟨first.manager, fun action h => ?_⟩
      exact (second.manager action h).trans hb
    · exact (second.last w' hw').trans hb
  begets hok hbegets hb := by
    refine hok.cons (.begets hok.live hbegets) ?_
    unfold Activity.executes
    split
    · cases hb
    · rfl
  migrated _ hok := hok.cons (.migrated hok.live) rfl
  exhausted _ _ _ := ⟨nofun, nofun, nofun⟩
  begins _ w _ := by
    refine ⟨?_, ?_, ?_⟩
    · exact fun _ h => List.mem_singleton.mp h ▸ trivial
    · exact fun _ h => List.mem_singleton.mp h ▸ rfl
    · rintro _ ⟨⟩
      rfl
  silent w w' h _ := .of_sameStore h.lookup
  rollback w l w' hext h hkeeps := by
    refine ⟨(h hkeeps).own, (h hkeeps).manager, ?_⟩
    rintro _ ⟨⟩
    refine managerOf_congr (funext fun key => ?_)
    simp only [World.rollback, ExecutionState.rollback, ExecutionState.lookup, hext.base]
  write {fuel stack w w' key entry} hok hwrites hwritten hkeeps := by
    have hother : ∀ suffix, key ≠ Invoker.accountStorageKey token suffix := by
      rintro suffix rfl
      exact hok.not_writes hroot (hkeeps _ (List.mem_singleton_self _)) suffix hwrites
    refine ⟨fun action h => ?_, fun action h => ?_, ?_⟩
    · rw [List.mem_singleton.mp h]
      exact fun suffix hkey => absurd hkey (hother suffix)
    · rw [List.mem_singleton.mp h]
      rfl
    · rintro _ ⟨⟩
      refine managerOf_of_lookup ?_
      rw [hwritten.lookup, if_neg (hother _)]

end

section

variable (host : Host) (fuel : Nat)

theorem keepsFramed_execute {frame : Invoker} {token : AccountId} (hframe : frame.whoami = token)
    {code : AccountCode} {request : InvokeRequest} {stack : Stack} :
    Logged.Keeps (KeepsFramed token)
      (Traced.runCode (tracedEnvironment host fuel) .execute frame code request stack) := by
  subst hframe
  intro w hkeeps
  -- the first action is the start of the code, which is that of the token
  obtain ⟨_, _, -, heq⟩ := hkeeps _ (List.mem_append_left _ (List.mem_singleton_self _)) _
    List.mem_cons_self rfl rfl
  cases heq
  have hlogs : Logged.Logs (OwnAction frame (.code .execute frame Token.code request :: stack) w) _
    w := logs_execute host fuel request w
  refine ⟨?_, ?_, fun w' hw' => ?_⟩
  · refine List.forall_mem_append.mpr ⟨fun _ h => List.mem_singleton.mp h ▸ trivial, ?_⟩
    rintro (_ | ⟨inner, w₀, w₁, key, entry⟩) haction
    · trivial
    · obtain ⟨-, data, op, suffix, rfl, rfl, hstore⟩ := hlogs _ haction
      intro suffix' hkey
      obtain ⟨-, rfl⟩ := accountStorageKey_inj_iff.mp hkey
      exact ⟨frame, data, op, request, stack, rfl, rfl, hstore⟩
  · refine List.forall_mem_append.mpr ⟨fun _ h => List.mem_singleton.mp h ▸ rfl, ?_⟩
    rintro (_ | _) haction
    · exact hlogs _ haction
    · exact (hlogs _ haction).1
  · obtain ⟨r, hexec⟩ := Logged.exec_of_last hw'
    rw [Traced.exec_runCode (exec_tracedEnvironment host fuel)] at hexec
    exact (step_execute host fuel hexec).manager

theorem keepsFramed_traceRule {Root : Stack → Prop}
    (hroot : ∀ {stack}, Root stack → ∃ entry frame code request,
      stack = [.code entry frame code request]) (token : AccountId) :
    TraceRule host (fun _ => Outside Root token) (KeepsFramed token) where
  toActionRule := (keepsFramed_rule hroot token).actionRule _
  run hentry hcalls hok := by
    refine ((keepsFramed_rule hroot token).actionRule _).keeps_runCode hcalls hok fun op hop => ?_
    exact hok.cons (.issue hok.live hop) rfl
  execute {fuel frame target data funds paid stack} hcalls hruntime hstorage hok := by
    have rule := (keepsFramed_rule hroot token).actionRule host
    refine rule.keeps_bind (rule.keeps_lift (.codeOf _ _)) fun code => ?_
    by_cases htarget : target = token
    · exact keepsFramed_execute host fuel htarget
    · have hcode : Outside Root token (.code .execute (frame.branchExec target funds) code data ::
          .exec frame target data funds paid :: stack) :=
        hok.cons (.begets hok.live (.execute hruntime hstorage))
          (by simpa [Activity.executes, Invoker.branchExec] using htarget)
      exact rule.keeps_runCode hcalls hcode fun op hop => hcode.cons (.issue hcode.live hop) rfl

/-- The call tree of account code. -/
abbrev tree (entry : Entry) (frame : Invoker) (code : AccountCode) (request : InvokeRequest) :
    Traced InvokeResponse :=
  Traced.runCode (tracedEnvironment host fuel) entry frame code request []

variable (entry : Entry) (frame : Invoker) (code : AccountCode) (request : InvokeRequest)

theorem keepsFramed_tree (token : AccountId) :
    Logged.Keeps (KeepsFramed token) (tree host fuel entry frame code request) := by
  cases hexecutes : (Activity.code entry frame code request).executes token with
  | true =>
    cases entry with
    | execute => exact keepsFramed_execute host fuel (by simpa [Activity.executes] using hexecutes)
    | init => cases hexecutes
    | query => cases hexecutes
  | false =>
    have rule : TraceRule host (fun _ => Outside (· = [.code entry frame code request]) token) _ :=
      keepsFramed_traceRule host (fun h => ⟨_, _, _, _, h⟩) token
    have hok : Outside (· = [.code entry frame code request]) token
        [.code entry frame code request] := ⟨.root rfl, by simpa using hexecutes⟩
    exact rule.keeps_runCode (rule.keeps_call fuel) hok fun op hop =>
      hok.cons (.issue hok.live hop) rfl

theorem keepsUnwritten_tree :
    Logged.Keeps KeepsUnwritten (tree host fuel entry frame code request) :=
  (keepsUnwritten_traceRule host).keeps_runCode
    ((keepsUnwritten_traceRule host).keeps_call fuel) trivial fun _ _ => trivial

theorem balance_le_of_frame {token : AccountId} {w w' : World} {r : SdkResult InvokeResponse}
    (hframe : frame.whoami = token) (hkeeps : KeepsCode token (.code entry frame code request))
    (hsum : ∑ account, (balanceOf token w account).toNat < 2 ^ 128)
    (hmanager : managerOf token w ≠ .ok (some (some frame.sender)))
    (haccount : account ≠ frame.sender)
    (h : (entry.program code frame.env request).run (environment host fuel frame) w =
      .done (r, w')) : (balanceOf token w account).toNat ≤ (balanceOf token w' account).toNat := by
  obtain ⟨_, _, hinit, heq⟩ := hkeeps rfl hframe
  cases heq
  subst hframe
  cases entry with
  | init => exact absurd rfl hinit
  | execute => exact (step_execute host fuel h).balance_le hsum hmanager haccount
  | query =>
    have hsame := sameStore_queryRule.keeps_run_lift
      (sameStore_queryRule.keeps_doQuery host fuel frame) (query frame.env request) w
    exact (Step.same (Exec.wp_done hsame h)).balance_le hsum hmanager haccount

/-- For every call tree of arbitrary account code and every token that keeps its code in it and is
initialised before it: what the token stores changes only where a frame of the token writes it, or a
failed call around is rolled back; the supply is written only in a frame whose sender is the supply
manager at that time; the supply manager stays; and a frame of the token that is entered while the
balances sum to less than `2 ^ 128` takes nothing from an account that is not its sender, unless
its sender is the supply manager. -/
theorem token_frames (token : AccountId) (w : World)
    (hkeeps : ∀ action ∈ (tree host fuel entry frame code request).log w,
      ∀ a ∈ action.stack, KeepsCode token a) :
    Framed token w ((tree host fuel entry frame code request).log w)
      ((tree host fuel entry frame code request).last w) ∧
    (∀ w' ∈ (tree host fuel entry frame code request).last w, ∀ suffix,
      w'.storage.lookup (Invoker.accountStorageKey token suffix) ≠
        w.storage.lookup (Invoker.accountStorageKey token suffix) →
      ∃ action ∈ (tree host fuel entry frame code request).log w,
        action.key = some (Invoker.accountStorageKey token suffix)) ∧
    ∀ entry' frame' code' request' stack w₀,
      .begins (.code entry' frame' code' request' :: stack) w₀ ∈
        (tree host fuel entry frame code request).log w →
      frame'.whoami = token → ∑ account, (balanceOf token w₀ account).toNat < 2 ^ 128 →
      managerOf token w₀ ≠ .ok (some (some frame'.sender)) →
      ∀ account, account ≠ frame'.sender → ∀ fuel' r w₁,
        (entry'.program code' frame'.env request').run (environment host fuel' frame') w₀ =
          .done (r, w₁) →
        (balanceOf token w₀ account).toNat ≤ (balanceOf token w₁ account).toNat := by
  refine ⟨keepsFramed_tree host fuel entry frame code request token w hkeeps, ?_, ?_⟩
  · intro w' hw' suffix hchanged
    obtain ⟨r, hexec⟩ := Logged.exec_of_last hw'
    exact written_of_lookup_ne (keepsUnwritten_tree host fuel entry frame code request) hexec
      hchanged
  · intro entry' frame' code' request' stack w₀ hbegins hframe hsum hmanager account haccount fuel'
      r w₁ hrun
    exact balance_le_of_frame host fuel' entry' frame' code' request' hframe
      (hkeeps _ hbegins _ List.mem_cons_self) hsum hmanager haccount hrun

end

/-! ### A mint of the sample token -/

/-- A tree in which only the first code opens a frame keeps the code if that one does. -/
theorem keepsCode_of_root {host : Host} {fuel : Nat} {entry : Entry} {frame : Invoker}
    {code : AccountCode} {request : InvokeRequest} {token : AccountId} {w : World}
    (hroot : KeepsCode token (.code entry frame code request))
    (hinner : ∀ action ∈ (tree host fuel entry frame code request).log w,
      ∀ a ∈ action.stack.dropLast, a.opensFrame = false) :
    ∀ action ∈ (tree host fuel entry frame code request).log w,
      ∀ a ∈ action.stack, KeepsCode token a := by
  have rule := allSound_traceRule host (· = [.code entry frame code request])
  have hsound : Logged.Keeps (AllSound (· = [.code entry frame code request]))
      (tree host fuel entry frame code request) :=
    rule.keeps_runCode (rule.keeps_call fuel) (.root rfl) fun _ => .issue (.root rfl)
  intro action haction a ha
  have hlast : action.stack.getLast? = some (.code entry frame code request) := by
    cases action with
    | begins stack w₀ => exact (hsound w _ haction).getLast?
    | write stack w₀ w₁ key entry => exact (hsound w _ haction).1.getLast?
  rw [← List.dropLast_append_getLast? _ hlast, List.mem_append, List.mem_singleton] at ha
  rcases ha with ha | rfl
  · intro hopens
    rw [hinner action haction a ha] at hopens
    cases hopens
  · exact hroot

def mintFrame : Invoker := { initFrame with sender := .fromU64 30 }

def mintTree : Traced InvokeResponse :=
  tree tokenHost 1 .execute mintFrame code (requestOf (MintMsg.mk (.fromU64 40) 3))

theorem mintTree_ends :
    Exec.Ends (initRun sampleBalances) (fun r w => r.toOption.isSome ∧
      (∃ w' ∈ mintTree.last w, supplyOf sampleToken w' = 15) ∧
      ∀ action ∈ mintTree.log w, ∀ a ∈ action.stack.dropLast, a.opensFrame = false)
        tokenWorld := by
  decide +kernel

/-- The supply manager mints. -/
theorem token_frames_mint :
    ∃ w w', mintTree.last w = some w' ∧ supplyOf sampleToken w' = 15 ∧
      Framed sampleToken w (mintTree.log w) (some w') := by
  obtain ⟨r, w, hrun, -, ⟨w', hlast, hsupply⟩, hinner⟩ := mintTree_ends.exists
  refine ⟨w, w', hlast, hsupply, ?_⟩
  rw [← Option.mem_def.mp hlast]
  refine (token_frames tokenHost 1 _ _ _ _ sampleToken w (keepsCode_of_root ?_ hinner)).1
  exact fun _ _ => ⟨.execute, _, nofun, rfl⟩

end Token

end Evolve
