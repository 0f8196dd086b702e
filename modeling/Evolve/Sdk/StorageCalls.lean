import Mathlib
import Evolve.Sdk.Collections

/-! Programs of account code whose calls of the storage account are answered: with gas and room they
are, and then the programs of a map read and write what they are meant to. -/

namespace Evolve

open Machine Borsh Effects

/-! ### Requests of the storage account -/

theorem StorageGetRequest.new_of_length (owner : AccountId) {key : Bytes}
    (hkey : key.length < 256 ^ 4) : ∃ request, InvokeRequest.new (mk owner key) = .ok request :=
  InvokeRequest.new_of_encodes ((Codec.encodes_pair (Encodable.codec : Codec AccountId) Codec.bytes
    (owner, key)).mpr ⟨Codec.encodes_fixed 32 _, (Codec.encodes_bytes key).mpr hkey⟩)

theorem StorageSetRequest.new_of_length (key : Bytes) (value : Message)
    (hkey : key.length < 256 ^ 4) (hvalue : value.length < 256 ^ 4) :
    ∃ request, InvokeRequest.new (mk key value) = .ok request :=
  InvokeRequest.new_of_encodes ((Codec.encodes_pair Codec.bytes Codec.bytes (key, value)).mpr
    ⟨(Codec.encodes_bytes key).mpr hkey, (Codec.encodes_bytes value).mpr hvalue⟩)

/-! ### Calls of the storage account that succeed -/

/-- Gas without a limit, and room for `n` more keys. -/
structure World.Spare (n : Nat) (w : World) : Prop where
  gas : w.gasCounter = .infinite
  room : w.storage.overlay.size + n ≤ maxOverlayEntries

theorem ExecutionState.set_of_room {s : ExecutionState} {key : Bytes} {value : Message}
    (hkey : key.length ≤ maxKeySize) (hvalue : value.length ≤ maxValueSize)
    (hroom : s.overlay.size < maxOverlayEntries) :
    ∃ s', s.set key value = .ok s' ∧ s'.overlay.size ≤ s.overlay.size + 1 := by
  unfold set write
  rw [if_neg (by omega), if_neg (by omega)]
  split
  · exact ⟨_, rfl, Std.ExtTreeMap.size_insert_le⟩
  · rw [if_neg (by omega)]
    exact ⟨_, rfl, Std.ExtTreeMap.size_insert_le⟩

variable {owner : AccountId} {request : InvokeRequest}

section

variable (host : Host) (fuel : Nat) (frame : Invoker)

variable {w : World}

theorem yields_charge {f : GasCounter → SdkResult GasCounter} (hf : f .infinite = .ok .infinite)
    (hgas : w.gasCounter = .infinite) : Exec.Yields (Run.charge f) (fun _ w' => w' = w) w := by
  refine ⟨(), w, ?_, rfl⟩
  unfold Run.charge
  rw [hgas, hf, ← hgas]

theorem yields_storageGet {key : Bytes} {value : Option Message}
    (hrequest : InvokeRequest.new (StorageGetRequest.mk owner key) = .ok request)
    (hlookup : w.storage.lookup (Invoker.accountStorageKey owner key) = .ok value)
    (hvalue : ∀ m ∈ value, m.length < 256 ^ 4) (hgas : w.gasCounter = .infinite) :
    Exec.Yields (environment host (fuel + 1) frame (.doQuery storageAccountId request))
      (fun response w' => InvokeResponse.get response = .ok (StorageGetResponse.mk value) ∧
        w' = w.countRead) w := by
  obtain ⟨hfunction, hget⟩ := InvokeRequest.new_spec hrequest
  have hencodes : (Encodable.codec : Codec StorageGetResponse).Encodes ⟨value⟩ :=
    (Codec.encodes_option Codec.bytes value).mpr fun m hm =>
      (Codec.encodes_bytes m).mpr (hvalue m hm)
  obtain ⟨response, hresponse⟩ := InvokeResponse.new_of_encodes hencodes
  have hread : w.countRead.gasCounter = .infinite := hgas
  show Exec.Yields (Invoker.doQuery host (environment host fuel) frame storageAccountId request) _ w
  unfold Invoker.doQuery Invoker.handleStorageQuery
  rw [if_neg Map.storageAccountId_ne_runtimeAccountId, if_pos rfl, if_pos hfunction]
  refine .bind (.ofExcept hget (.bind ⟨value, w.countRead, ?_, .bind ?_⟩))
  · unfold Run.get
    exact congrArg (fun r => Outcome.done (r, w.countRead)) hlookup
  · refine (yields_charge (f := fun c => c.consumeGetGas _ _) rfl hread).mono fun _ w' h => ?_
    subst h
    exact .ofExcept hresponse ⟨InvokeResponse.get_new hresponse, rfl⟩

theorem yields_doExec {nested : Environment} {target : AccountId} {data : InvokeRequest}
    {P : InvokeResponse → World → Prop} (hdepth : frame.callDepth < maxCallDepth)
    (h : Exec.Yields (Invoker.execWithoutTransfers host nested frame target data []) P
      { w with storage := w.storage.checkpoint.2 }) :
    Exec.Yields (Invoker.doExec host nested frame target data []) P w := by
  unfold Invoker.doExec
  rw [if_neg (Nat.not_le.mpr hdepth)]
  refine .bind ⟨_, _, rfl, .bind ⟨.ok (), _, rfl, .bind (h.attempt.mono ?_)⟩⟩
  rintro _ w' ⟨response, rfl, hp⟩
  exact .pure hp

theorem yields_handleStorageExec {key : Bytes} {value : Message} {n : Nat}
    (hrequest : InvokeRequest.new (StorageSetRequest.mk key value) = .ok request)
    (hkey : (Invoker.accountStorageKey frame.whoami key).length ≤ maxKeySize)
    (hvalue : value.length ≤ maxValueSize) (hspare : w.Spare (n + 1)) :
    Exec.Yields (frame.handleStorageExec request)
      (fun response w' => (InvokeResponse.get response : SdkResult Unit) = .ok () ∧ w'.Spare n)
      w := by
  obtain ⟨hfunction, hget⟩ := InvokeRequest.new_spec hrequest
  obtain ⟨response, hresponse⟩ := InvokeResponse.new_of_encodes (Codec.encodes_unit ())
  have hroom := hspare.room
  obtain ⟨s, hset, hsize⟩ := ExecutionState.set_of_room hkey hvalue
    (show w.storage.overlay.size < _ by omega)
  unfold Invoker.handleStorageExec
  rw [if_pos hfunction]
  refine .bind (.ofExcept hget (.bind ?_))
  refine (yields_charge (f := fun c => c.consumeSetGas _ _) rfl hspare.gas).mono fun _ w' h => ?_
  subst h
  refine .bind ⟨(), { w' with storage := s }, ?_, .ofExcept hresponse
    ⟨InvokeResponse.get_new hresponse, hspare.gas, ?_⟩⟩
  · unfold Run.set Run.update
    dsimp only
    rw [hset]
  · show s.overlay.size + n ≤ _
    omega

theorem yields_storageSet {key : Bytes} {value : Message} {n : Nat}
    (hrequest : InvokeRequest.new (StorageSetRequest.mk key value) = .ok request)
    (hkey : (Invoker.accountStorageKey frame.whoami key).length ≤ maxKeySize)
    (hvalue : value.length ≤ maxValueSize) (hdepth : frame.callDepth < maxCallDepth)
    (hspare : w.Spare (n + 1)) :
    Exec.Yields (environment host (fuel + 1) frame (.doExec storageAccountId request []))
      (fun response w' => (InvokeResponse.get response : SdkResult Unit) = .ok () ∧ w'.Spare n)
      w := by
  refine yields_doExec host frame hdepth ?_
  unfold Invoker.execWithoutTransfers
  rw [if_neg Map.storageAccountId_ne_runtimeAccountId, if_pos rfl]
  exact yields_handleStorageExec frame hrequest hkey hvalue ⟨hspare.gas, hspare.room⟩

end

/-! ### Maps when the storage account answers -/

/-- The encoding exists, and is short enough for a key or a value in a message. -/
def Storable {α : Type} [Encodable α] (a : α) : Prop :=
  ∃ message, Message.new a = .ok message ∧ message.length + 1 < 256 ^ 4

theorem storable_unit (u : Unit) : Storable u := ⟨[], rfl, by decide⟩

theorem toNat_ofNat {n : Nat} (h : n < 2 ^ 64) : (UInt64.ofNat n).toNat = n :=
  UInt64.toNat_ofNat_of_lt' h

theorem Message.new_u64 (n : UInt64) : Message.new n = .ok (leBytes 8 n.toNat) := by
  have hlt : n.toNat < 256 ^ 8 := n.toNat_lt
  have hencode : (Encodable.codec : Codec UInt64).encode n = some (leBytes 8 n.toNat) := if_pos hlt
  unfold Message.new
  rw [hencode]

theorem storable_u64 (n : UInt64) : Storable n :=
  ⟨_, Message.new_u64 n, by rw [length_leBytes]; decide⟩

theorem storable_accountId (account : AccountId) : Storable account :=
  ⟨account.asBytes, rfl, by rw [AccountId.asBytes, account.bytes.length_eq]; decide⟩

namespace Map

variable {K V : Type} [Encodable K] [Encodable V] {m : Map K V}
  {host : Host} {fuel : Nat} {frame : Invoker} {key : K} {w : World}

omit [Encodable V] in
theorem makeKey_of_storable (m : Map K V) (hkey : Storable key) :
    ∃ bytes, m.makeKey key = .ok bytes ∧ bytes.length < 256 ^ 4 := by
  obtain ⟨message, hmessage, hlength⟩ := hkey
  refine ⟨m.keyPrefix :: message, ?_, by simpa using hlength⟩
  unfold makeKey
  rw [hmessage]
  rfl

/-- The key of an item is shorter than those of numbered entries. -/
theorem apart_item {V V' : Type} (m : Map UInt64 V) (item : Item V') : m.Apart item := by
  intro n _ bytes hkey hkey'
  obtain ⟨message, hmessage, rfl⟩ := makeKey_ok hkey
  obtain ⟨message', ⟨⟩, heq⟩ := makeKey_ok hkey'
  cases (Message.new_u64 n).symm.trans hmessage
  have hlength := congrArg List.length heq
  rw [List.length_cons, length_leBytes] at hlength
  cases hlength

omit [Encodable V] in
theorem Apart.symm {K' V' : Type} [Encodable K'] {m' : Map K' V'} (h : m.Apart m') :
    m'.Apart m := fun key' key bytes hkey' hkey => h key key' bytes hkey hkey'

theorem read_new (m : Map K V) (owner : AccountId) (hkey : Storable key) :
    m.read (.new fun _ => .ok none) owner key = .ok none := by
  obtain ⟨bytes, hbytes, -⟩ := m.makeKey_of_storable hkey
  unfold read
  rw [hbytes]
  rfl

theorem delivers_set {value : V} (hkey : Storable key) (hvalue : Storable value) :
    Prog.Delivers (environment host fuel frame) (m.set key value)
      (fun _ w' => m.Puts frame.whoami key (some value) w w') w := by
  obtain ⟨bytes, hbytes, hlength⟩ := m.makeKey_of_storable hkey
  obtain ⟨message, hmessage, hshort⟩ := hvalue
  obtain ⟨request, hrequest⟩ := StorageSetRequest.new_of_length bytes message hlength (by omega)
  refine .bind (.ofExcept hbytes (.bind (.ofExcept hmessage (.bind (.ofExcept hrequest ?_)))))
  refine .bind ((Prog.Delivers.request (returns_storageSet host fuel frame hrequest)).mono ?_)
  exact fun _ w' h => .pure (Writes.puts ⟨bytes, message, hbytes, hmessage, h⟩)

theorem delivers_remove (hkey : Storable key) :
    Prog.Delivers (environment host fuel frame) (m.remove key)
      (fun _ w' => m.Puts frame.whoami key none w w') w := by
  obtain ⟨bytes, hbytes, hlength⟩ := m.makeKey_of_storable hkey
  have hencodes : (Encodable.codec : Codec StorageRemoveRequest).Encodes ⟨bytes⟩ :=
    (Codec.encodes_bytes bytes).mpr hlength
  obtain ⟨request, hrequest⟩ := InvokeRequest.new_of_encodes hencodes
  refine .bind (.ofExcept hbytes (.bind (.ofExcept hrequest ?_)))
  refine .bind ((Prog.Delivers.request (returns_storageRemove host fuel frame hrequest)).mono ?_)
  exact fun _ w' h => .pure ⟨bytes, none, hbytes, rfl, h⟩

theorem delivers_mayGet {value : Option V} (hkey : Storable key)
    (hread : m.read w.storage frame.whoami key = .ok value) :
    Prog.Delivers (environment host fuel frame) (m.mayGet frame.env key).lift
      (fun found w' => found = value ∧ w.SameStore w') w := by
  obtain ⟨bytes, hbytes, hlength⟩ := m.makeKey_of_storable hkey
  obtain ⟨request, hrequest⟩ := StorageGetRequest.new_of_length frame.whoami hlength
  unfold mayGet
  rw [QueryProgram.lift_bind]
  refine .bind (.ofExcept hbytes ?_)
  rw [QueryProgram.lift_bind]
  refine .bind (.ofExcept hrequest ?_)
  rw [QueryProgram.lift_bind, QueryProgram.lift_request]
  refine .bind ((Prog.Delivers.request (returns_storageGet host fuel frame hrequest)).mono ?_)
  rintro response w' ⟨hsame, stored, hlookup, hresponse⟩
  rw [QueryProgram.lift_bind]
  refine .bind (.ofExcept hresponse (.ofExcept ?_ ⟨rfl, hsame⟩))
  unfold read at hread
  rw [hbytes] at hread
  exact (congrArg (decodeValue =<< ·) hlookup).symm.trans hread

theorem delivers_get {value : V} (hkey : Storable key)
    (hread : m.read w.storage frame.whoami key = .ok (some value)) :
    Prog.Delivers (environment host fuel frame) (m.get frame.env key).lift
      (fun found w' => found = value ∧ w.SameStore w') w := by
  unfold get
  rw [QueryProgram.lift_bind]
  refine .bind ((delivers_mayGet hkey hread).mono ?_)
  rintro _ w' ⟨rfl, hsame⟩
  exact .pure ⟨rfl, hsame⟩

/-- The item holds `n`, where nothing counts as zero. -/
def Counts (item : Item UInt64) (owner : AccountId) (n : UInt64) (w : World) : Prop :=
  ∃ stored, item.read w.storage owner () = .ok stored ∧ stored.getD 0 = n

theorem Counts.of_read {item : Item UInt64} {n : UInt64} {w w' : World} (h : item.Counts owner n w)
    (hread : item.read w'.storage owner () = item.read w.storage owner ()) :
    item.Counts owner n w' := by
  unfold Counts
  rw [hread]
  exact h

theorem delivers_count {item : Item UInt64} {n : UInt64} (h : item.Counts frame.whoami n w) :
    Prog.Delivers (environment host fuel frame)
      (QueryProgram.lift do
        let stored ← item.mayGet frame.env ()
        pure (stored.getD 0))
      (fun found w' => found = n ∧ w.SameStore w') w := by
  obtain ⟨stored, hstored, hcount⟩ := h
  rw [QueryProgram.lift_bind]
  refine .bind ((delivers_mayGet (storable_unit ()) hstored).mono ?_)
  rintro _ w₁ ⟨rfl, hsame⟩
  exact .pure ⟨hcount, hsame⟩

end Map

theorem QueryProgram.lift_attempt {α : Type} (p : QueryProgram α) :
    QueryProgram.lift p.attempt = p.lift.attempt := Prog.rename_attempt p

/-! ### Maps that are queried -/

section

variable {gas : GasCounter} {w : World} (hgas : gas = .infinite → w.gasCounter = .infinite)
include hgas

theorem follows_charge (charge : StorageGasConfig → UInt64) (size : UInt64) :
    Exec.Follows gas.OutOf (.ok ()) (Run.charge (·.consumeStorageGas charge size)) w := by
  cases hcharge : w.gasCounter.consumeStorageGas charge size with
  | ok c =>
    refine ⟨.ok (), { w with gasCounter := c }, ?_, .inl rfl⟩
    simp only [Run.charge, hcharge]
  | error e =>
    obtain ⟨he, hlimit⟩ := GasCounter.outOf_of_consumeStorageGas hcharge
    refine ⟨.error e, w, ?_, .inr ⟨e, rfl, he, fun h => hlimit (hgas h)⟩⟩
    simp only [Run.charge, hcharge]

theorem follows_storageGet (host : Host) (fuel : Nat) (frame : Invoker) {key : Bytes}
    (hrequest : InvokeRequest.new (StorageGetRequest.mk owner key) = .ok request) :
    Exec.Follows gas.OutOf
      (w.storage.lookup (Invoker.accountStorageKey owner key) >>= fun value =>
        InvokeResponse.new (StorageGetResponse.mk value))
      (environment host (fuel + 1) frame (.doQuery storageAccountId request)) w := by
  obtain ⟨hfunction, hget⟩ := InvokeRequest.new_spec hrequest
  show Exec.Follows _ _
    (Invoker.doQuery host (environment host fuel) frame storageAccountId request) w
  unfold Invoker.doQuery Invoker.handleStorageQuery
  rw [if_neg Map.storageAccountId_ne_runtimeAccountId, if_pos rfl, if_pos hfunction, hget]
  refine .bind (g := fun value => InvokeResponse.new (StorageGetResponse.mk value))
    ⟨_, w.countRead, rfl, .inl rfl⟩ fun value w' _ hrun => ?_
  have hw : w' = w.countRead := (Prod.mk.inj (Outcome.done.inj hrun)).2.symm
  subst hw
  have hcharge := follows_charge (w := w.countRead) hgas (·.storageGetCharge)
    (GasCounter.getSize (Invoker.accountStorageKey owner key) value)
  exact hcharge.bind (g := fun _ => InvokeResponse.new (StorageGetResponse.mk value))
    fun _ _ _ _ => .ofExcept

omit hgas in
/-- A response that cannot hold the value is no loss if the value cannot be decoded either. -/
theorem Map.decodeValue_response {V : Type} [Encodable V] {n : Nat}
    (hsize : (Encodable.codec : Codec V).HasSize n) (hn : n < 256 ^ 4) (stored : Option Message) :
    (InvokeResponse.new (StorageGetResponse.mk stored) >>= fun response =>
      (InvokeResponse.get response : SdkResult StorageGetResponse) >>= fun resp =>
        (Map.decodeValue resp.value : SdkResult (Option V))).toOption =
      (Map.decodeValue stored : SdkResult (Option V)).toOption := by
  cases hnew : InvokeResponse.new (StorageGetResponse.mk stored) with
  | ok response =>
    show ((InvokeResponse.get response : SdkResult StorageGetResponse) >>= _).toOption = _
    rw [InvokeResponse.get_new hnew]
    rfl
  | error e =>
    cases hdecode : (Map.decodeValue stored : SdkResult (Option V)) with
    | error e' => rfl
    | ok value =>
      have hencodes : (Encodable.codec : Codec StorageGetResponse).Encodes ⟨stored⟩ := by
        refine (Codec.encodes_option Codec.bytes stored).mpr fun message hmessage => ?_
        obtain rfl := Option.mem_def.mp hmessage
        cases hget : (Message.get message : SdkResult V) with
        | ok v =>
          rw [Codec.encodes_bytes, Message.length_of_get hsize hget]
          exact hn
        | error e' =>
          rw [decodeValue, hget] at hdecode
          cases hdecode
      obtain ⟨response, hresponse⟩ := InvokeResponse.new_of_encodes hencodes
      cases hnew.symm.trans hresponse

theorem Map.follows_mayGet {K V : Type} [Encodable K] [Encodable V] (m : Map K V) (host : Host)
    (fuel : Nat) (frame : Invoker) {key : K} (hkey : Storable key) {n : Nat}
    (hsize : (Encodable.codec : Codec V).HasSize n) (hn : n < 256 ^ 4) :
    Exec.Follows gas.OutOf (m.read w.storage frame.whoami key)
      ((m.mayGet frame.env key).lift.run (environment host (fuel + 1) frame)) w := by
  obtain ⟨bytes, hbytes, hlength⟩ := m.makeKey_of_storable hkey
  obtain ⟨request, hrequest⟩ := StorageGetRequest.new_of_length frame.whoami hlength
  have hprogram : m.mayGet frame.env key = (do
      let response ← Prog.request (QueryOp.mk storageAccountId request)
      let resp : StorageGetResponse ← Prog.ofExcept response.get
      Prog.ofExcept (decodeValue resp.value)) := by
    unfold mayGet
    rw [hbytes]
    show (Prog.ofExcept (InvokeRequest.new (StorageGetRequest.mk frame.whoami bytes)) >>= _) = _
    rw [hrequest]
    rfl
  rw [hprogram, QueryProgram.lift_bind, Prog.run_bind, QueryProgram.lift_request, Prog.run_request]
  refine .congr (.bind (g := fun response =>
      (InvokeResponse.get response : SdkResult StorageGetResponse) >>= fun resp =>
        decodeValue resp.value)
    (follows_storageGet hgas host fuel frame hrequest) fun response w' _ _ => ?_) ?_
  · rw [QueryProgram.lift_bind, Prog.run_bind]
    exact .bind_ofExcept fun resp _ => .ofExcept
  · unfold read
    rw [hbytes]
    show _ =
      (w.storage.lookup (Invoker.accountStorageKey frame.whoami bytes) >>= decodeValue).toOption
    cases w.storage.lookup (Invoker.accountStorageKey frame.whoami bytes) with
    | error e => rfl
    | ok stored => exact decodeValue_response hsize hn stored

end

/-! ### Programs that have been run -/

/-- The program has been run in a frame of `owner`, and every call was answered. -/
def Performed (host : Host) (owner : AccountId) {α : Type} (program : Env → Program α)
    (before : World) (result : SdkResult α) (after : World) : Prop :=
  ∃ fuel frame, frame.whoami = owner ∧
    (program frame.env).Answered (environment host fuel frame) before ∧
    (program frame.env).run (environment host fuel frame) before = .done (result, after)

theorem Performed.concludes {host : Host} {α : Type} {program : Env → Program α}
    {before after : World} {result : SdkResult α} {Q : SdkResult α → World → Prop}
    (h : Performed host owner program before result after)
    (hconcludes : ∀ fuel frame, frame.whoami = owner →
      Prog.Concludes (environment host fuel frame) (program frame.env) Q before) :
    Q result after := by
  obtain ⟨fuel, frame, hwho, hanswered, hrun⟩ := h
  obtain ⟨r, w', hrun', hq⟩ := hconcludes fuel frame hwho hanswered
  cases hrun.symm.trans hrun'
  exact hq

theorem Performed.delivers {host : Host} {α : Type} {program : Env → Program α}
    {before after : World} {result : SdkResult α} {P : α → World → Prop}
    (h : Performed host owner program before result after)
    (hdelivers : ∀ fuel frame, frame.whoami = owner →
      Prog.Delivers (environment host fuel frame) (program frame.env) P before) :
    ∃ a, result = .ok a ∧ P a after :=
  h.concludes fun fuel frame hwho => (hdelivers fuel frame hwho).concludes

/-- Runs the program if every call is answered. -/
def tryPerform (host : Host) (fuel : Nat) (frame : Invoker) {α : Type}
    (program : Env → Program α) (w : World) : Option (SdkResult α × World) :=
  if (program frame.env).Answered (environment host fuel frame) w then
    match (program frame.env).run (environment host fuel frame) w with
    | .done r => some r
    | _ => none
  else none

theorem performed_of_tryPerform {host : Host} {fuel : Nat} {frame : Invoker} {α : Type}
    {program : Env → Program α} {w w' : World} {result : SdkResult α}
    (h : tryPerform host fuel frame program w = some (result, w')) :
    Performed host frame.whoami program w result w' := by
  unfold tryPerform at h
  split at h
  · rename_i hanswered
    split at h
    · rename_i hrun
      cases h
      exact ⟨fuel, frame, rfl, hanswered, hrun⟩
    · cases h
  · cases h

/-! ### What queries answer -/

/-- In every frame of `owner` and whatever the gas is, if every call is answered, the result is
`a`. -/
def Answers (host : Host) (owner : AccountId) {α : Type} (p : Env → QueryProgram α) (a : α)
    (w : World) : Prop :=
  ∀ fuel frame w', frame.whoami = owner → w.SameStore w' →
    Prog.Delivers (environment host fuel frame) (p frame.env).lift (fun b _ => b = a) w'

/-- The first items of an iterator, as `take` and `collect` give them. -/
def takeItems {ι α : Type} (next : ι → QueryProgram (Option (SdkResult α) × ι)) :
    Nat → ι → QueryProgram (List (SdkResult α))
  | 0, _ => pure []
  | n + 1, iter => do
    match ← next iter with
    | (none, _) => pure []
    | (some item, iter) => do
      let items ← takeItems next n iter
      pure (item :: items)

/-- `iterAt k` still has the list without its first `k` elements. -/
theorem delivers_takeItems {ι α : Type} {next : ι → QueryProgram (Option (SdkResult α) × ι)}
    {host : Host} {fuel : Nat} {frame : Invoker} (list : List α) (iterAt : Nat → ι) {w : World}
    (stops : ∀ w', w.SameStore w' → Prog.Delivers (environment host fuel frame)
      (next (iterAt list.length)).lift (fun r _ => r.1 = none) w')
    (goesOn : ∀ k a w', w.SameStore w' → list[k]? = some a →
      Prog.Delivers (environment host fuel frame) (next (iterAt k)).lift
        (fun r w'' => r = (some (.ok a), iterAt (k + 1)) ∧ w'.SameStore w'') w')
    (n : Nat) {k : Nat} (hk : k ≤ list.length) {w' : World} (hsame : w.SameStore w') :
    Prog.Delivers (environment host fuel frame) (takeItems next n (iterAt k)).lift
      (fun items _ => items = ((list.drop k).take n).map .ok) w' := by
  induction n generalizing k w' with
  | zero => exact .pure rfl
  | succ n ih =>
    rw [takeItems, QueryProgram.lift_bind]
    obtain rfl | hlt := hk.eq_or_lt
    · refine .bind ((stops w' hsame).mono ?_)
      rintro ⟨_, _⟩ _ rfl
      refine .pure ?_
      rw [List.drop_length]
      rfl
    · refine .bind ((goesOn k _ w' hsame (List.getElem?_eq_getElem hlt)).mono ?_)
      rintro _ w'' ⟨rfl, hsame'⟩
      show Prog.Delivers _ (QueryProgram.lift (takeItems next n (iterAt (k + 1)) >>= _)) _ _
      rw [QueryProgram.lift_bind]
      refine .bind ((ih hlt (hsame.trans hsame')).mono ?_)
      rintro _ _ rfl
      refine .pure ?_
      rw [List.drop_eq_getElem_cons hlt]
      rfl

end Evolve
