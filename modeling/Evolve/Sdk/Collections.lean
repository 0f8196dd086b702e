import Mathlib
import Evolve.Stf.Atomicity

/-! The storage collections of account code, and what their programs do to the store when they
succeed. -/

namespace Evolve

open Machine Borsh Effects

def errNotFound : ErrorCode := defineError 0x01

namespace QueryProgram

theorem lift_bind {α β : Type} (p : QueryProgram α) (f : α → QueryProgram β) :
    QueryProgram.lift (p >>= f) = p.lift >>= fun a => (f a).lift :=
  Prog.rename_bind p f

theorem lift_request (op : QueryOp) :
    QueryProgram.lift (Prog.request op) = Prog.request (EnvOp.doQuery op.target op.data) := by
  refine congrArg (Prog.call _) (funext fun r => ?_)
  cases r <;> rfl

end QueryProgram

theorem sameStore_queryRule : QueryRule World.SameStore where
  refl := .refl
  trans _ _ _ := .trans
  countRead _ := rfl
  charge _ _ w := wp_charge (fun _ _ => .refl w) fun _ _ => .refl w

/-! ### Calls of account code -/

def execAccount {Req : Type} (Resp : Type) [InvokableMessage Req] [Encodable Resp]
    (target : AccountId) (request : Req) (funds : List FungibleAsset) : Program Resp := do
  let invokeRequest ← Prog.ofExcept (InvokeRequest.new request)
  let response ← Prog.request (EnvOp.doExec target invokeRequest funds)
  Prog.ofExcept (InvokeResponse.get response)

def queryAccount {Req : Type} (Resp : Type) [InvokableMessage Req] [Encodable Resp]
    (target : AccountId) (request : Req) : QueryProgram Resp := do
  let invokeRequest ← Prog.ofExcept (InvokeRequest.new request)
  let response ← Prog.request (QueryOp.mk target invokeRequest)
  Prog.ofExcept (InvokeResponse.get response)

def registerAccountAtId {Req : Type} [Encodable Req] (account : AccountId) (codeId : String)
    (initMsg : Req) : Program Unit := do
  let initMessage ← Prog.ofExcept (Message.new initMsg)
  execAccount Unit runtimeAccountId (RegisterAccountAtIdRequest.mk account codeId initMessage) []

/-! ### Maps and items -/

/-- Values of type `V` in account storage, one for each key of type `K`. -/
structure Map (K V : Type) where
  keyPrefix : UInt8

abbrev Item (V : Type) := Map Unit V

namespace Map

variable {K V : Type} [Encodable K] [Encodable V]

def makeKey (m : Map K V) (key : K) : SdkResult Bytes :=
  (Message.new key).map (m.keyPrefix :: ·)

def set (m : Map K V) (key : K) (value : V) : Program Unit := do
  let bytesKey ← Prog.ofExcept (m.makeKey key)
  let message ← Prog.ofExcept (Message.new value)
  let request ← Prog.ofExcept (InvokeRequest.new (StorageSetRequest.mk bytesKey message))
  let _ ← Prog.request (EnvOp.doExec storageAccountId request [])

def decodeValue : Option Message → SdkResult (Option V)
  | none => .ok none
  | some v => (Message.get v).map some

def mayGet (m : Map K V) (env : Env) (key : K) : QueryProgram (Option V) := do
  let bytesKey ← Prog.ofExcept (m.makeKey key)
  let request ← Prog.ofExcept (InvokeRequest.new (StorageGetRequest.mk env.whoami bytesKey))
  let response ← Prog.request (QueryOp.mk storageAccountId request)
  let resp : StorageGetResponse ← Prog.ofExcept response.get
  Prog.ofExcept (decodeValue resp.value)

def get (m : Map K V) (env : Env) (key : K) : QueryProgram V := do
  match ← m.mayGet env key with
  | some value => pure value
  | none => Prog.throw errNotFound

def remove (m : Map K V) (key : K) : Program Unit := do
  let bytesKey ← Prog.ofExcept (m.makeKey key)
  let request ← Prog.ofExcept (InvokeRequest.new (StorageRemoveRequest.mk bytesKey))
  let _ ← Prog.request (EnvOp.doExec storageAccountId request [])

def update (m : Map K V) (env : Env) (key : K) (updateFn : Option V → SdkResult V) :
    Program V := do
  let oldValue ← (m.mayGet env key).lift
  let newValue ← Prog.ofExcept (updateFn oldValue)
  m.set key newValue
  pure newValue

/-! ### Reading a state -/

def read (m : Map K V) (s : ExecutionState) (owner : AccountId) (key : K) :
    SdkResult (Option V) := do
  let bytesKey ← m.makeKey key
  decodeValue (← s.lookup (Invoker.accountStorageKey owner bytesKey))

theorem read_congr (m : Map K V) {w w' : World} (h : w.SameStore w') (owner : AccountId)
    (key : K) : m.read w'.storage owner key = m.read w.storage owner key := by
  unfold read
  rw [h]

/-- `w'` is `w` with `value` stored by `owner` under `key`. -/
def Writes (m : Map K V) (owner : AccountId) (key : K) (value : V) (w w' : World) : Prop :=
  ∃ bytesKey message, m.makeKey key = .ok bytesKey ∧ Message.new value = .ok message ∧
    ∀ k, w'.storage.lookup k =
      if Invoker.accountStorageKey owner bytesKey = k then .ok (some message)
      else w.storage.lookup k

/-- `w'` is `w` with `value` in the place of what `owner` has under `key`. -/
def Puts (m : Map K V) (owner : AccountId) (key : K) (value : Option V) (w w' : World) : Prop :=
  ∃ bytesKey stored, m.makeKey key = .ok bytesKey ∧ decodeValue stored = .ok value ∧
    ∀ k, w'.storage.lookup k =
      if Invoker.accountStorageKey owner bytesKey = k then .ok stored else w.storage.lookup k

/-- No entry of one map is an entry of the other. -/
def Apart {K' V' : Type} [Encodable K'] (m : Map K V) (m' : Map K' V') : Prop :=
  ∀ key key' bytes, m.makeKey key = .ok bytes → m'.makeKey key' ≠ .ok bytes

theorem accountStorageKey_inj {owner : AccountId} {k k' : Bytes} :
    Invoker.accountStorageKey owner k = Invoker.accountStorageKey owner k' ↔ k = k' := by
  simp [Invoker.accountStorageKey]

omit [Encodable V] in
theorem makeKey_ok {m : Map K V} {key : K} {bytes : Bytes} (h : m.makeKey key = .ok bytes) :
    ∃ message, Message.new key = .ok message ∧ bytes = m.keyPrefix :: message := by
  unfold makeKey at h
  cases hk : Message.new key with
  | error e => rw [hk] at h; cases h
  | ok message =>
    rw [hk] at h
    cases h
    exact ⟨message, rfl, rfl⟩

omit [Encodable V] in
theorem makeKey_inj {m : Map K V} {key key' : K} {bytes : Bytes} (h : m.makeKey key = .ok bytes)
    (h' : m.makeKey key' = .ok bytes) : key = key' := by
  obtain ⟨message, hk, rfl⟩ := makeKey_ok h
  obtain ⟨message', hk', heq⟩ := makeKey_ok h'
  cases heq
  have hget : (Message.get message : SdkResult K) = .ok key' := Message.get_new hk'
  rw [Message.get_new hk] at hget
  cases hget
  rfl

omit [Encodable V] in
theorem apart_of_ne {K' V' : Type} [Encodable K'] {m : Map K V} {m' : Map K' V'}
    (hne : m'.keyPrefix ≠ m.keyPrefix) : m.Apart m' := by
  intro key key' bytes hkey hkey'
  obtain ⟨_, -, rfl⟩ := makeKey_ok hkey
  obtain ⟨_, -, heq⟩ := makeKey_ok hkey'
  exact hne (List.cons.inj heq).1.symm

namespace Puts

variable {m : Map K V} {owner : AccountId} {key : K} {value : Option V} {w w' : World}

theorem read (h : m.Puts owner key value w w') : m.read w'.storage owner key = .ok value := by
  obtain ⟨bytesKey, stored, hkey, hstored, hlookup⟩ := h
  unfold Map.read
  rw [hkey]
  show decodeValue =<< w'.storage.lookup _ = _
  rw [hlookup, if_pos rfl]
  exact hstored

theorem read_of_ne {K' V' : Type} [Encodable K'] [Encodable V'] (m' : Map K' V') (key' : K')
    (h : m.Puts owner key value w w')
    (hne : ∀ bytes, m.makeKey key = .ok bytes → m'.makeKey key' ≠ .ok bytes) :
    m'.read w'.storage owner key' = m'.read w.storage owner key' := by
  obtain ⟨bytesKey, stored, hkey, -, hlookup⟩ := h
  unfold Map.read
  cases hkey' : m'.makeKey key' with
  | error e => rfl
  | ok bytes' =>
    have hbytes : bytesKey ≠ bytes' := fun h => hne bytesKey hkey (h ▸ hkey')
    show decodeValue =<< w'.storage.lookup _ = decodeValue =<< w.storage.lookup _
    rw [hlookup, if_neg (fun h => hbytes (accountStorageKey_inj.mp h))]

theorem read_other (h : m.Puts owner key value w w') {key' : K} (hne : key' ≠ key) :
    m.read w'.storage owner key' = m.read w.storage owner key' :=
  h.read_of_ne m key' fun _ hkey hkey' => hne (makeKey_inj hkey' hkey)

theorem read_apart {K' V' : Type} [Encodable K'] [Encodable V'] {m' : Map K' V'}
    (h : m.Puts owner key value w w') (hapart : m.Apart m') (key' : K') :
    m'.read w'.storage owner key' = m'.read w.storage owner key' :=
  h.read_of_ne m' key' fun bytes => hapart key key' bytes

end Puts

namespace Writes

variable {m : Map K V} {owner : AccountId} {key : K} {value : V} {w w' : World}

theorem puts (h : m.Writes owner key value w w') : m.Puts owner key (some value) w w' := by
  obtain ⟨bytesKey, message, hkey, hmessage, hlookup⟩ := h
  refine ⟨bytesKey, some message, hkey, ?_, hlookup⟩
  show (Message.get message).map some = _
  rw [Message.get_new hmessage]
  rfl

theorem of_sameStore {w₁ : World} (hsame : w.SameStore w₁) (h : m.Writes owner key value w₁ w') :
    m.Writes owner key value w w' := by
  obtain ⟨bytesKey, message, hkey, hmessage, hlookup⟩ := h
  exact ⟨bytesKey, message, hkey, hmessage, fun k => by rw [hlookup, hsame]⟩

theorem trans_sameStore {w₁ : World} (h : m.Writes owner key value w w₁) (hsame : w₁.SameStore w') :
    m.Writes owner key value w w' := by
  obtain ⟨bytesKey, message, hkey, hmessage, hlookup⟩ := h
  exact ⟨bytesKey, message, hkey, hmessage, fun k => by rw [hsame, hlookup]⟩

theorem read (h : m.Writes owner key value w w') :
    m.read w'.storage owner key = .ok (some value) := h.puts.read

theorem codeIdentifier (h : m.Writes owner key value w w') (account : AccountId) :
    w'.storage.codeIdentifier account = w.storage.codeIdentifier account := by
  obtain ⟨bytesKey, message, -, -, hlookup⟩ := h
  unfold ExecutionState.codeIdentifier
  rw [hlookup, if_neg]
  intro hkey
  cases hkey

theorem read_other (h : m.Writes owner key value w w') {key' : K} (hne : key' ≠ key) :
    m.read w'.storage owner key' = m.read w.storage owner key' := h.puts.read_other hne

theorem read_otherPrefix {K' V' : Type} [Encodable K'] [Encodable V']
    (h : m.Writes owner key value w w') (m' : Map K' V') (hne : m'.keyPrefix ≠ m.keyPrefix)
    (key' : K') : m'.read w'.storage owner key' = m'.read w.storage owner key' :=
  h.puts.read_apart (apart_of_ne hne) key'

end Writes

/-! ### Running the programs -/

section Run

variable (host : Host) (fuel : Nat) (frame : Invoker)

omit [Encodable K] [Encodable V] in
theorem storageAccountId_ne_runtimeAccountId : storageAccountId ≠ runtimeAccountId := by decide

variable {request : InvokeRequest} {key : Bytes}

omit [Encodable K] [Encodable V] in
theorem returns_handleStorageExec {value : Message}
    (hrequest : InvokeRequest.new (StorageSetRequest.mk key value) = .ok request) (w : World) :
    Exec.Returns (frame.handleStorageExec request) (fun _ w' =>
      ∀ k, w'.storage.lookup k =
        if Invoker.accountStorageKey frame.whoami key = k then .ok (some value)
        else w.storage.lookup k) w := by
  obtain ⟨hfunction, hget⟩ := InvokeRequest.new_spec hrequest
  unfold Invoker.handleStorageExec
  rw [if_pos hfunction]
  refine Exec.Returns.bind (Exec.Returns.ofExcept fun storageSet hget' => ?_)
  cases hget.symm.trans hget'
  refine Exec.Returns.bind (Exec.Returns.of_wp (wp_charge (fun c _ _ _ => ?_) ?_))
  · refine Exec.Returns.bind (Exec.Returns.of_wp (wp_update (fun s hset _ _ => ?_) ?_))
    · exact Exec.Returns.ofExcept fun _ _ => ExecutionState.lookup_set hset
    · rintro e _ _ ⟨⟩
  · rintro e _ _ ⟨⟩

omit [Encodable K] [Encodable V] in
theorem returns_storageExec {P : InvokeResponse → World → Prop} {w : World}
    (h : Exec.Returns (frame.handleStorageExec request) P
      { w with storage := w.storage.checkpoint.2 }) :
    Exec.Returns (environment host fuel frame (.doExec storageAccountId request [])) P w := by
  cases fuel with
  | zero => exact Exec.Returns.outOfFuel
  | succ fuel =>
    intro response w' hrun
    obtain ⟨w₁, ⟨⟩, hexec⟩ := doExec_ok hrun
    unfold Invoker.execWithoutTransfers at hexec
    rw [if_neg storageAccountId_ne_runtimeAccountId, if_pos rfl] at hexec
    exact h _ _ hexec

omit [Encodable K] [Encodable V] in
theorem returns_storageSet {value : Message} {w : World}
    (hrequest : InvokeRequest.new (StorageSetRequest.mk key value) = .ok request) :
    Exec.Returns (environment host fuel frame (.doExec storageAccountId request [])) (fun _ w' =>
      ∀ k, w'.storage.lookup k =
        if Invoker.accountStorageKey frame.whoami key = k then .ok (some value)
        else w.storage.lookup k) w :=
  returns_storageExec host fuel frame (returns_handleStorageExec frame hrequest _)

omit [Encodable K] [Encodable V] in
theorem returns_storageRemove {w : World}
    (hrequest : InvokeRequest.new (StorageRemoveRequest.mk key) = .ok request) :
    Exec.Returns (environment host fuel frame (.doExec storageAccountId request [])) (fun _ w' =>
      ∀ k, w'.storage.lookup k =
        if Invoker.accountStorageKey frame.whoami key = k then .ok none
        else w.storage.lookup k) w := by
  obtain ⟨hfunction, hget⟩ := InvokeRequest.new_spec hrequest
  have hset : request.function ≠ InvokableMessage.functionIdentifier StorageSetRequest := by
    rw [hfunction]
    decide
  refine returns_storageExec host fuel frame ?_
  unfold Invoker.handleStorageExec
  rw [if_neg hset, if_pos hfunction]
  refine Exec.Returns.bind (Exec.Returns.ofExcept fun storageRemove hget' => ?_)
  cases hget.symm.trans hget'
  refine Exec.Returns.bind (Exec.Returns.of_wp (wp_charge (fun c _ _ _ => ?_) ?_))
  · refine Exec.Returns.bind (Exec.Returns.of_wp (wp_update (fun s hremove _ _ => ?_) ?_))
    · have hlookup := ExecutionState.lookup_remove hremove
      exact Exec.Returns.ofExcept fun _ _ => hlookup
    · rintro e _ _ ⟨⟩
  · rintro e _ _ ⟨⟩

omit [Encodable K] [Encodable V] in
theorem returns_handleStorageQuery {owner : AccountId}
    (hrequest : InvokeRequest.new (StorageGetRequest.mk owner key) = .ok request) (w : World) :
    Exec.Returns (Invoker.handleStorageQuery request)
      (fun response w' => w.SameStore w' ∧ ∃ value,
        w.storage.lookup (Invoker.accountStorageKey owner key) = .ok value ∧
          response.get = .ok (StorageGetResponse.mk value)) w := by
  obtain ⟨hfunction, hget⟩ := InvokeRequest.new_spec hrequest
  unfold Invoker.handleStorageQuery
  rw [if_pos hfunction]
  refine Exec.Returns.bind (Exec.Returns.ofExcept fun storageGet hget' => ?_)
  cases hget.symm.trans hget'
  refine Exec.Returns.bind (Exec.Returns.of_wp (wp_get.mpr fun value hvalue => ?_))
  refine Exec.Returns.bind (Exec.Returns.of_wp (wp_charge (fun c _ _ _ => ?_) ?_))
  · exact Exec.Returns.ofExcept fun _ hnew => ⟨rfl, value, hvalue, InvokeResponse.get_new hnew⟩
  · rintro e _ _ ⟨⟩

omit [Encodable K] [Encodable V] in
theorem returns_storageGet {owner : AccountId} {w : World}
    (hrequest : InvokeRequest.new (StorageGetRequest.mk owner key) = .ok request) :
    Exec.Returns (environment host fuel frame (.doQuery storageAccountId request))
      (fun response w' => w.SameStore w' ∧ ∃ value,
        w.storage.lookup (Invoker.accountStorageKey owner key) = .ok value ∧
          InvokeResponse.get response = .ok (StorageGetResponse.mk value)) w := by
  cases fuel with
  | zero => exact Exec.Returns.outOfFuel
  | succ fuel =>
    intro response w' hrun
    replace hrun : Invoker.doQuery host (environment host fuel) frame storageAccountId request w =
      .done (.ok response, w') := hrun
    unfold Invoker.doQuery at hrun
    rw [if_neg storageAccountId_ne_runtimeAccountId, if_pos rfl] at hrun
    exact returns_handleStorageQuery hrequest w response w' hrun

variable (m : Map K V)

theorem settles_set (key : K) (value : V) (w : World) :
    Exec.Settles ((m.set key value).run (environment host fuel frame))
      (fun _ w' => m.Writes frame.whoami key value w w') w.SameStore w := by
  unfold set
  rw [Prog.run_bind]
  refine .bind (.ofExcept (fun bytesKey hkey => ?_) (.refl w))
  rw [Prog.run_bind]
  refine .bind (.ofExcept (fun message hmessage => ?_) (.refl w))
  rw [Prog.run_bind]
  refine .bind (.ofExcept (fun request hrequest => ?_) (.refl w))
  rw [Prog.run_bind, Prog.run_request]
  have hset := returns_storageSet host fuel frame (w := w) hrequest
  have hfailed := wp_doExec_sameExceptMetrics host fuel frame storageAccountId request [] w
  refine .bind ((Exec.Settles.of_returns hset ?_).mono fun _ w' h => ?_)
  · exact Exec.wp_mono (fun _ _ h e he => (h e he).lookup) hfailed
  · exact .pure ⟨bytesKey, message, hkey, hmessage, h⟩

theorem returns_set (key : K) (value : V) (w : World) :
    Exec.Returns ((m.set key value).run (environment host fuel frame))
      (fun _ w' => m.Writes frame.whoami key value w w') w :=
  (m.settles_set host fuel frame key value w).returns

theorem returns_mayGet (key : K) (w : World) :
    Exec.Returns ((m.mayGet frame.env key).lift.run (environment host fuel frame))
      (fun value w' => w.SameStore w' ∧ m.read w.storage frame.whoami key = .ok value) w := by
  unfold mayGet
  rw [QueryProgram.lift_bind, Prog.run_bind]
  refine Exec.Returns.bind (Exec.Returns.ofExcept fun bytesKey hkey => ?_)
  rw [QueryProgram.lift_bind, Prog.run_bind]
  refine Exec.Returns.bind (Exec.Returns.ofExcept fun request hrequest => ?_)
  rw [QueryProgram.lift_bind, Prog.run_bind, QueryProgram.lift_request, Prog.run_request]
  refine Exec.Returns.bind ((returns_storageGet host fuel frame hrequest).mono fun _ w' h => ?_)
  obtain ⟨hsame, stored, hlookup, hresponse⟩ := h
  rw [QueryProgram.lift_bind, Prog.run_bind]
  refine Exec.Returns.bind (Exec.Returns.ofExcept fun resp hresp => ?_)
  cases hresponse.symm.trans hresp
  refine Exec.Returns.ofExcept fun value hvalue => ⟨hsame, ?_⟩
  unfold read
  rw [hkey]
  show decodeValue =<< w.storage.lookup _ = _
  rw [← hvalue]
  exact congrArg (decodeValue =<< ·) hlookup

theorem returns_get (key : K) (w : World) :
    Exec.Returns ((m.get frame.env key).lift.run (environment host fuel frame))
      (fun value w' => w.SameStore w' ∧
        m.read w.storage frame.whoami key = .ok (some value)) w := by
  unfold get
  rw [QueryProgram.lift_bind, Prog.run_bind]
  refine Exec.Returns.bind ((m.returns_mayGet host fuel frame key w).mono fun value w' h => ?_)
  cases value with
  | none => exact Exec.Returns.throw
  | some value => exact Exec.Returns.pure h

theorem settles_mayGet (key : K) (w : World) :
    Exec.Settles ((m.mayGet frame.env key).lift.run (environment host fuel frame))
      (fun value w' => w.SameStore w' ∧ m.read w.storage frame.whoami key = .ok value)
      w.SameStore w :=
  .of_returns (m.returns_mayGet host fuel frame key w) <| Exec.wp_mono (fun _ _ h _ _ => h) <|
    sameStore_queryRule.keeps_run_lift (sameStore_queryRule.keeps_doQuery host fuel frame) _ w

theorem settles_get (key : K) (w : World) :
    Exec.Settles ((m.get frame.env key).lift.run (environment host fuel frame))
      (fun value w' => w.SameStore w' ∧ m.read w.storage frame.whoami key = .ok (some value))
      w.SameStore w :=
  .of_returns (m.returns_get host fuel frame key w) <| Exec.wp_mono (fun _ _ h _ _ => h) <|
    sameStore_queryRule.keeps_run_lift (sameStore_queryRule.keeps_doQuery host fuel frame) _ w

theorem settles_update (key : K) (updateFn : Option V → SdkResult V) (w : World) :
    Exec.Settles ((m.update frame.env key updateFn).run (environment host fuel frame))
      (fun newValue w' => ∃ oldValue, m.read w.storage frame.whoami key = .ok oldValue ∧
        updateFn oldValue = .ok newValue ∧ m.Writes frame.whoami key newValue w w')
      w.SameStore w := by
  unfold update
  rw [Prog.run_bind]
  refine .bind ((m.settles_mayGet host fuel frame key w).mono fun oldValue w₁ h => ?_)
  obtain ⟨hsame, hread⟩ := h
  rw [Prog.run_bind]
  refine .bind (.ofExcept (fun newValue hnew => ?_) hsame)
  rw [Prog.run_bind]
  have hset := (m.settles_set host fuel frame key newValue w₁).mono_error fun _ => hsame.trans
  refine .bind (hset.mono fun _ w₂ h => ?_)
  exact .pure ⟨oldValue, hread, hnew, h.of_sameStore hsame⟩

theorem returns_update (key : K) (updateFn : Option V → SdkResult V) (w : World) :
    Exec.Returns ((m.update frame.env key updateFn).run (environment host fuel frame))
      (fun newValue w' => ∃ oldValue, m.read w.storage frame.whoami key = .ok oldValue ∧
        updateFn oldValue = .ok newValue ∧ m.Writes frame.whoami key newValue w w') w :=
  (m.settles_update host fuel frame key updateFn w).returns

end Run

end Map

end Evolve
