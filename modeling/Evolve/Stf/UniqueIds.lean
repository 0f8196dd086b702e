import Mathlib
import Evolve.Stf.Objects

/-! Unique ids.  The ids that a block hands out and does not roll back are distinct, as long as the
counter of the block does not wrap.  A transaction shares this counter with what the block did
before it, so its ids are numbered from one only if nothing was counted before. -/

namespace Evolve

open Machine Borsh Effects

/-! ### The layout of ids -/

theorem drop_blockUniqueId (height objectId : UInt64) :
    (blockUniqueId height objectId).bytes.drop 30 = beBytes 2 0 := by
  simp [blockUniqueId, beBytes, leBytes]

theorem drop_txUniqueId (txId : FixedBytes 32) (objectId : UInt64) :
    (txUniqueId txId objectId).bytes.drop 30 = beBytes 2 objectId.toNat := by
  simp [txUniqueId, txId.length_eq]

variable {objectId objectId' : UInt64}

theorem blockUniqueId_inj {height height' : UInt64}
    (h : blockUniqueId height objectId = blockUniqueId height' objectId') :
    objectId = objectId' := by
  have hbytes := congrArg FixedBytes.bytes h
  simp only [blockUniqueId, List.append_assoc] at hbytes
  have hrest := (List.append_inj hbytes (by simp)).2
  have hobject := (List.append_inj hrest (by simp)).1
  exact UInt64.toNat_inj.mp ((beBytes_inj objectId.toNat_lt objectId'.toNat_lt).mp hobject)

variable {txId : FixedBytes 32}

theorem txUniqueId_inj {txId' : FixedBytes 32} (hmax : objectId ≤ maxObjectsPerTransaction)
    (hmax' : objectId' ≤ maxObjectsPerTransaction)
    (h : txUniqueId txId objectId = txUniqueId txId' objectId') : objectId = objectId' := by
  have hbytes := congrArg (fun id => id.bytes.drop 30) h
  simp only [drop_txUniqueId] at hbytes
  have hle := UInt64.le_iff_toNat_le.mp hmax
  have hle' := UInt64.le_iff_toNat_le.mp hmax'
  have hvalue : maxObjectsPerTransaction.toNat = 65535 := rfl
  exact UInt64.toNat_inj.mp ((beBytes_inj (by omega) (by omega)).mp hbytes)

theorem blockUniqueId_ne_txUniqueId {height : UInt64} (hmax : objectId' ≤ maxObjectsPerTransaction)
    (hpos : objectId' ≠ 0) : blockUniqueId height objectId ≠ txUniqueId txId objectId' := by
  intro h
  have hbytes := congrArg (fun id => id.bytes.drop 30) h
  simp only [drop_txUniqueId, drop_blockUniqueId] at hbytes
  have hle := UInt64.le_iff_toNat_le.mp hmax
  have hvalue : maxObjectsPerTransaction.toNat = 65535 := rfl
  have hzero := (beBytes_inj (by norm_num) (by omega)).mp hbytes
  exact hpos (UInt64.toNat_inj.mp hzero.symm)

theorem uniqueId_transaction (txId : FixedBytes 32) (objectId : UInt64) :
    (ExecutionScope.transaction txId).uniqueId objectId =
      if objectId > maxObjectsPerTransaction then .error errTooManyObjects
      else .ok (txUniqueId txId objectId) := rfl

variable {id : FixedBytes 32}

theorem uniqueId_ok {scope : ExecutionScope} (h : scope.uniqueId objectId = .ok id) :
    (∃ height, id = blockUniqueId height objectId) ∨
      ∃ txId, scope = .transaction txId ∧ objectId ≤ maxObjectsPerTransaction ∧
        id = txUniqueId txId objectId := by
  cases scope with
  | beginBlock height => exact .inl ⟨height, (Except.ok.inj h).symm⟩
  | endBlock height => exact .inl ⟨height, (Except.ok.inj h).symm⟩
  | transaction txId =>
    rw [uniqueId_transaction] at h
    split at h
    · cases h
    · rename_i hmax
      exact .inr ⟨txId, rfl, UInt64.not_lt.mp hmax, (Except.ok.inj h).symm⟩
  | query => cases h

/-- Ids with different numbers differ, whatever their scopes and the hashes of transactions. -/
theorem uniqueId_inj {scope scope' : ExecutionScope} (h : scope.uniqueId objectId = .ok id)
    (h' : scope'.uniqueId objectId' = .ok id) (hpos : objectId ≠ 0) (hpos' : objectId' ≠ 0) :
    objectId = objectId' := by
  rcases uniqueId_ok h with ⟨height, rfl⟩ | ⟨txId, -, hmax, rfl⟩ <;>
    rcases uniqueId_ok h' with ⟨height', h'⟩ | ⟨txId', -, hmax', h'⟩
  · exact blockUniqueId_inj h'
  · exact (blockUniqueId_ne_txUniqueId hmax' hpos' h').elim
  · exact (blockUniqueId_ne_txUniqueId hmax hpos h'.symm).elim
  · exact txUniqueId_inj hmax hmax' h'

variable {request : ObjectRequest}

theorem ObjectRequest.toOption_id : request.id.toOption = some id ↔ request.id = .ok id := by
  cases request.id <;> simp [Except.toOption]

theorem objectRequests_append (l l' : List Action) :
    objectRequests (l ++ l') = objectRequests l ++ objectRequests l' :=
  List.filterMap_append

/-! ### Consecutive requests -/

def Consecutive : UInt64 → List ObjectRequest → Prop
  | _, [] => True
  | counter, request :: requests =>
    request.counter = counter ∧ Consecutive (counter + 1) requests

variable {height : UInt64}

theorem Numbered.consecutive {pin : Action → Bool} {counter : UInt64} {l : List Action}
    (h : Numbered pin counter l) (hpin : l.any pin = false) :
    Consecutive counter (objectRequests l) := by
  induction l generalizing counter with
  | nil => trivial
  | cons action l ih =>
    rw [List.any_cons, Bool.or_eq_false_iff] at hpin
    have hrest := ih (h.2 hpin.1) hpin.2
    cases hrequest : action.objectRequest with
    | none => simpa [objectRequests, hrequest, counterAfter] using hrest
    | some request =>
      have hcons : objectRequests (action :: l) = request :: objectRequests l := by
        simp [objectRequests, hrequest]
      rw [hcons]
      refine ⟨h.1 request hrequest, ?_⟩
      simpa [objectRequests, hrequest, counterAfter] using hrest

variable {requests : List ObjectRequest}

theorem Consecutive.map_counter {counter : UInt64} (h : Consecutive counter requests)
    (hmax : ∀ request ∈ requests, request.counter ≠ u64Max) :
    requests.map (fun request => request.counter.toNat) =
      List.range' counter.toNat requests.length := by
  induction requests generalizing counter with
  | nil => rfl
  | cons request requests ih =>
    obtain ⟨rfl, hrest⟩ := h
    obtain ⟨hfirst, hothers⟩ := List.forall_mem_cons.mp hmax
    rw [List.map_cons, ih hrest hothers, toNat_add_one hfirst, List.length_cons, List.range'_succ]

theorem Consecutive.pairwise {counter : UInt64} (h : Consecutive counter requests)
    (hmax : ∀ request ∈ requests, request.counter ≠ u64Max) :
    requests.Pairwise fun request request' => request.counter ≠ request'.counter := by
  have hnodup : (requests.map fun request => request.counter.toNat).Nodup := by
    rw [h.map_counter hmax]
    exact List.nodup_range'
  refine (List.pairwise_map.mp hnodup).imp fun hne heq => hne ?_
  rw [heq]

theorem Consecutive.nodup {counter : UInt64} (h : Consecutive counter requests)
    (hmax : ∀ request ∈ requests, request.counter ≠ u64Max) :
    (requests.filterMap fun request => request.id.toOption).Nodup := by
  have hpos : ∀ request ∈ requests, request.counter + 1 ≠ 0 := by
    intro request hrequest hzero
    have hnat := congrArg UInt64.toNat hzero
    rw [toNat_add_one (hmax request hrequest)] at hnat
    cases hnat
  refine List.pairwise_filterMap.mpr ((h.pairwise hmax).imp_of_mem ?_)
  rintro request request' hmem hmem' hne id hid id' hid' rfl
  exact hne (add_right_cancel (uniqueId_inj (ObjectRequest.toOption_id.mp hid)
    (ObjectRequest.toOption_id.mp hid') (hpos request hmem) (hpos request' hmem')))

/-! ### The ids of a block -/

section

variable {Tx Block : Type} [Transaction Tx] [BlockTrait Block Tx]
variable (host : Host) (fuel : Nat) (stf : Stf Tx Block) (block : Block)

/-- For every block, from every state, with every account code: the ids that were handed out and not
rolled back are distinct, if none of them was asked for while the counter was at its maximum. -/
theorem retained_ids_nodup (w : World)
    (hmax : ∀ request ∈ objectRequests ((Traced.retainedBlock host fuel stf block).log w),
      request.counter ≠ u64Max) :
    (handedOut ((Traced.retainedBlock host fuel stf block).log w)).Nodup := by
  have hnumbers : Numbers (fun _ => false) (fun _ => True) w
      ((Traced.retainedBlock host fuel stf block).log w) _ := Numbers.applyBlock block w
  exact (hnumbers.numbered.consecutive (by simp)).nodup hmax

end

/-! ### A block with a call that fails -/

def askIds : Nat → Program Unit
  | 0 => pure ()
  | n + 1 => .call .uniqueId fun _ => askIds n

def askingStf (n : Nat) : Stf TestTx TestBlock := { testStf with beginBlock := fun _ _ => askIds n }

/-- Code that asks for an id and fails. -/
def wastingCode : AccountCode where
  init _ _ := Prog.ofExcept (InvokeResponse.new ())
  execute _ _ := .call .uniqueId fun _ => Prog.throw errUnauthorized
  query _ _ := Prog.throw errUnknownFunction

/-- Code that asks for an id before and after a call that fails. -/
def askingCode : AccountCode where
  init _ _ := Prog.ofExcept (InvokeResponse.new ())
  execute _ _ :=
    .call .uniqueId fun _ =>
      .call (.doExec (.fromU64 21) (Invoker.initRequest []) []) fun _ =>
        .call .uniqueId fun _ => Prog.ofExcept (InvokeResponse.new ())
  query _ _ := Prog.throw errUnknownFunction

def askingHost : Host where
  withCode codeId :=
    .ok (if codeId = "asking" then some askingCode
      else if codeId = "wasting" then some wastingCode else none)
  isAlphanumeric c := c.isAlphanum

def askingStore : ReadonlyKV := fun key =>
  if key = accountCodeIdentifierKey (.fromU64 20) then (Message.new "asking").map some
  else if key = accountCodeIdentifierKey (.fromU64 21) then (Message.new "wasting").map some
  else .ok none

def askingWorld : World := ⟨.new askingStore, .infinite, []⟩

def askingTx : TestTx := ⟨.fromU64 200, .fromU64 20, Invoker.initRequest [], 1000, [], none⟩

def askingBlock : TestBlock := ⟨⟨1, 0⟩, [askingTx], 1000⟩

def zeroTxId : FixedBytes 32 := .repeatByte 32 0

/-- The begin blocker has the first number and the transaction the second and the third; the call
that failed had the third before. -/
theorem retained_ids_nodup_asking :
    handedOut ((Traced.retainedBlock askingHost 3 (askingStf 1) askingBlock).log askingWorld) =
        [blockUniqueId 1 1, txUniqueId zeroTxId 2, txUniqueId zeroTxId 3] ∧
      (handedOut ((Traced.retainedBlock askingHost 3 (askingStf 1) askingBlock).log
        askingWorld)).Nodup := by
  refine ⟨by decide +kernel, retained_ids_nodup _ _ _ _ _ ?_⟩
  decide +kernel

/-! ### The ids of a transaction -/

section

variable {Tx Block : Type} [Transaction Tx]
variable (host : Host) (fuel : Nat) (stf : Stf Tx Block) (tx : Tx) (context : BlockContext)
  (w : World)

/-- What a transaction does from a world. -/
def txTrace (pin : Action → Bool) : List Action :=
  (Parts.applyTx (BlockPart.pruned host fuel pin stf) stf tx context).log w

/-- What is in force at a moment of a transaction, done and not rolled back, and what is still to
come. -/
def InForce (before after : List Action) : Prop :=
  ∃ pin, txTrace host fuel stf tx context w pin = before ++ after ∧ before.any pin = false

/-- The ids that a transaction has at any moment are its own, numbered from one; and a request is
refused only when the transaction has as many ids as it may have. -/
structure OwnObjects : Prop where
  numbered : ∀ before after, InForce host fuel stf tx context w before after →
    ∀ k id, (handedOut before)[k]? = some id → k + 1 ≤ maxObjectsPerTransaction.toNat ∧
      id = txUniqueId (Transaction.computeIdentifier tx) (UInt64.ofNat (k + 1))
  refused : ∀ before action after request,
    InForce host fuel stf tx context w before (action :: after) →
    action.objectRequest = some request → request.id = .error errTooManyObjects →
    maxObjectsPerTransaction.toNat ≤ (handedOut before).length

/-- Nothing was counted before the transaction, and nothing it does in the scope of the block is
counted. -/
structure CountsAlone : Prop where
  fresh : w.storage.uniqueObjects = 0
  inScope : ∀ before after, InForce host fuel stf tx context w before after →
    ∀ request ∈ objectRequests before,
      request.scope = .transaction (Transaction.computeIdentifier tx)

/-- The transaction never has an id, and none of its requests is refused. -/
structure AsksNothing : Prop where
  none : ∀ before after, InForce host fuel stf tx context w before after → handedOut before = []
  granted : ∀ before action after request,
    InForce host fuel stf tx context w before (action :: after) →
    action.objectRequest = some request → request.id ≠ .error errTooManyObjects

/-- No request that is not rolled back finds the counter at its maximum, where 2 ^ 64 - 1 ids were
asked for in the block. -/
def NeverWraps : Prop :=
  ∀ before after, InForce host fuel stf tx context w before after →
    ∀ request ∈ objectRequests before, request.counter ≠ u64Max

end

/-- A scope of the frames of a transaction. -/
def InTx (height : UInt64) (txId : FixedBytes 32) (scope : ExecutionScope) : Prop :=
  scope = .beginBlock height ∨ scope = .transaction txId

theorem Consecutive.of_append {counter : UInt64} {more : List ObjectRequest}
    (h : Consecutive counter (requests ++ more)) : Consecutive counter requests := by
  induction requests generalizing counter with
  | nil => trivial
  | cons request requests ih => exact ⟨h.1, ih h.2⟩

/-- The requests of a transaction that counts from zero get its own ids. -/
theorem Consecutive.numbered {counter : UInt64} (h : Consecutive counter requests)
    (hscope : ∀ request ∈ requests, request.scope = .transaction txId)
    (hmax : ∀ request ∈ requests, request.counter ≠ u64Max) {k : Nat}
    (hid : (requests.filterMap fun request => request.id.toOption)[k]? = some id) :
    counter.toNat + k + 1 ≤ maxObjectsPerTransaction.toNat ∧
      id = txUniqueId txId (UInt64.ofNat (counter.toNat + k + 1)) := by
  induction requests generalizing counter k with
  | nil => simp at hid
  | cons request requests ih =>
    obtain ⟨rfl, hrest⟩ := h
    obtain ⟨hfirstScope, hscope⟩ := List.forall_mem_cons.mp hscope
    obtain ⟨hfirst, hmax⟩ := List.forall_mem_cons.mp hmax
    have hnext := toNat_add_one hfirst
    have hvalue : request.id = if request.counter + 1 > maxObjectsPerTransaction then
        .error errTooManyObjects else .ok (txUniqueId txId (request.counter + 1)) := by
      rw [ObjectRequest.id, hfirstScope, uniqueId_transaction]
    split at hvalue
    · -- a refused request: all later ones would be refused as well
      rename_i hfull
      have hfull := UInt64.lt_iff_toNat_lt.mp hfull
      rw [List.filterMap_cons, hvalue] at hid
      obtain ⟨hle, -⟩ := ih hrest hscope hmax hid
      omega
    · rename_i hroom
      have hroom := UInt64.le_iff_toNat_le.mp (UInt64.not_lt.mp hroom)
      rw [List.filterMap_cons, hvalue] at hid
      cases k with
      | zero =>
        have hnumber : UInt64.ofNat (request.counter.toNat + 0 + 1) = request.counter + 1 := by
          rw [Nat.add_zero, ← hnext, UInt64.ofNat_toNat]
        rw [hnumber]
        exact ⟨by omega, (Option.some.inj hid).symm⟩
      | succ k =>
        obtain ⟨hle, heq⟩ := ih hrest hscope hmax hid
        rw [hnext] at hle heq
        have hindex : request.counter.toNat + 1 + k + 1 = request.counter.toNat + (k + 1) + 1 := by
          omega
        rw [hindex] at hle heq
        exact ⟨hle, heq⟩

/-- As long as the numbers are small, every request of a transaction is granted. -/
theorem Consecutive.length_handedOut {counter : UInt64} (h : Consecutive counter requests)
    (hscope : ∀ request ∈ requests, InTx height txId request.scope)
    (hroom : counter.toNat + requests.length ≤ maxObjectsPerTransaction.toNat) :
    (requests.filterMap fun request => request.id.toOption).length = requests.length := by
  induction requests generalizing counter with
  | nil => rfl
  | cons request requests ih =>
    obtain ⟨rfl, hrest⟩ := h
    obtain ⟨hfirst, hscope⟩ := List.forall_mem_cons.mp hscope
    rw [List.length_cons] at hroom
    have hvalue : maxObjectsPerTransaction.toNat = 65535 := rfl
    have hnext : (request.counter + 1).toNat = request.counter.toNat + 1 := by
      refine toNat_add_one ?_
      intro hmax
      have hnat : request.counter.toNat = 18446744073709551615 := congrArg UInt64.toNat hmax
      omega
    have hgranted : ∃ id, request.id = .ok id := by
      rcases hfirst with hscope | hscope
      · exact ⟨_, by rw [ObjectRequest.id, hscope]; rfl⟩
      · have hle : ¬ request.counter + 1 > maxObjectsPerTransaction := by
          rw [gt_iff_lt, UInt64.lt_iff_toNat_lt]
          omega
        exact ⟨_, by rw [ObjectRequest.id, hscope, uniqueId_transaction, if_neg hle]⟩
    obtain ⟨id, hid⟩ := hgranted
    rw [List.filterMap_cons, ObjectRequest.toOption_id.mpr hid]
    exact congrArg (· + 1) (ih hrest hscope (by omega))

theorem Consecutive.le_length_handedOut {counter : UInt64} (h : Consecutive counter requests)
    (hcounter : counter = 0) (hscope : ∀ request ∈ requests, InTx height txId request.scope)
    (hfull : maxObjectsPerTransaction.toNat ≤ requests.length) :
    maxObjectsPerTransaction.toNat ≤
      (requests.filterMap fun request => request.id.toOption).length := by
  have hsplit := List.take_append_drop maxObjectsPerTransaction.toNat requests
  have hlength : (requests.take maxObjectsPerTransaction.toNat).length =
      maxObjectsPerTransaction.toNat := List.length_take_of_le hfull
  have hfirst : Consecutive counter (requests.take maxObjectsPerTransaction.toNat) :=
    Consecutive.of_append (hsplit.symm ▸ h)
  have hgranted := hfirst.length_handedOut (fun request hrequest =>
    hscope request (List.mem_of_mem_take hrequest)) (by rw [hlength, hcounter]; simp)
  rw [hlength] at hgranted
  rw [← hgranted]
  exact ((List.take_sublist _ _).filterMap _).length_le

/-- Only a scope of a transaction refuses for too many objects, and only above its maximum. -/
theorem ObjectRequest.counter_of_refused (h : request.id = .error errTooManyObjects) :
    maxObjectsPerTransaction.toNat ≤ request.counter.toNat := by
  have hfull : request.counter + 1 > maxObjectsPerTransaction := by
    rcases hscope : request.scope with _ | _ | txId | _ <;> rw [ObjectRequest.id, hscope] at h
    · cases h
    · cases h
    · by_contra hroom
      rw [uniqueId_transaction, if_neg hroom] at h
      cases h
    · exact absurd (Except.error.inj h) (by decide)
  have hlt := UInt64.lt_iff_toNat_lt.mp hfull
  have hle : (request.counter + 1).toNat ≤ request.counter.toNat + 1 := by
    rw [UInt64.toNat_add]
    exact Nat.mod_le _ _
  omega

theorem mem_handedOut {l : List Action} :
    id ∈ handedOut l ↔ ∃ request ∈ objectRequests l, request.id = .ok id := by
  simp only [handedOut, List.mem_filterMap, ObjectRequest.toOption_id]

section

variable {Tx Block : Type} [Transaction Tx]
variable {host : Host} {fuel : Nat} {stf : Stf Tx Block} {tx : Tx} {context : BlockContext}
  {w : World} {before after : List Action}

theorem InForce.numbers (h : InForce host fuel stf tx context w before after) :
    ∃ pin, before.any pin = false ∧ Numbered pin w.storage.uniqueObjects (before ++ after) ∧
      ∀ request ∈ objectRequests (before ++ after),
        InTx context.height (Transaction.computeIdentifier tx) request.scope := by
  obtain ⟨pin, htrace, hpin⟩ := h
  have hnumbers : Numbers pin (InTx context.height (Transaction.computeIdentifier tx)) w
      (txTrace host fuel stf tx context w pin) none :=
    (Numbers.applyTx (.inl rfl) (.inr rfl) w).unended
  rw [htrace] at hnumbers
  exact ⟨pin, hpin, hnumbers.numbered, hnumbers.scopes⟩

theorem InForce.consecutive (h : InForce host fuel stf tx context w before after) :
    Consecutive w.storage.uniqueObjects (objectRequests before) := by
  obtain ⟨pin, hpin, hnumbered, -⟩ := h.numbers
  exact (numbered_append.mp hnumbered).1.consecutive hpin

theorem InForce.scopes (h : InForce host fuel stf tx context w before after) :
    ∀ request ∈ objectRequests before,
      InTx context.height (Transaction.computeIdentifier tx) request.scope := by
  obtain ⟨pin, -, -, hscopes⟩ := h.numbers
  intro request hrequest
  refine hscopes request ?_
  rw [objectRequests_append]
  exact List.mem_append_left _ hrequest

/-- A request finds the counter where those before it have left it. -/
theorem InForce.counter {action : Action}
    (h : InForce host fuel stf tx context w before (action :: after))
    (hrequest : action.objectRequest = some request) :
    request.counter = counterAfter w.storage.uniqueObjects before := by
  obtain ⟨pin, hpin, hnumbered, -⟩ := h.numbers
  exact ((numbered_append.mp hnumbered).2 hpin).1 request hrequest

theorem CountsAlone.ownObjects (h : CountsAlone host fuel stf tx context w)
    (hmax : NeverWraps host fuel stf tx context w) : OwnObjects host fuel stf tx context w := by
  constructor
  · intro before after hforce k id hid
    have hnumbered := hforce.consecutive.numbered (h.inScope before after hforce)
      (hmax before after hforce) hid
    simpa [h.fresh] using hnumbered
  · intro before action after request hforce hrequest hrefused
    refine hforce.consecutive.le_length_handedOut h.fresh hforce.scopes ?_
    have hfull := ObjectRequest.counter_of_refused hrefused
    rw [hforce.counter hrequest, counterAfter, h.fresh, zero_add, UInt64.toNat_ofNat'] at hfull
    exact hfull.trans (Nat.mod_le _ _)

theorem OwnObjects.of_mem (h : OwnObjects host fuel stf tx context w)
    (hforce : InForce host fuel stf tx context w before after) (hid : id ∈ handedOut before) :
    ∃ objectId, objectId ≠ 0 ∧ objectId ≤ maxObjectsPerTransaction ∧
      id = txUniqueId (Transaction.computeIdentifier tx) objectId := by
  obtain ⟨k, hk⟩ := List.getElem?_of_mem hid
  obtain ⟨hle, rfl⟩ := h.numbered before after hforce k id hk
  have hvalue : maxObjectsPerTransaction.toNat = 65535 := rfl
  have hnat : (UInt64.ofNat (k + 1)).toNat = k + 1 := by
    rw [UInt64.toNat_ofNat']
    exact Nat.mod_eq_of_lt (by omega)
  refine ⟨UInt64.ofNat (k + 1), fun hzero => ?_, UInt64.le_iff_toNat_le.mpr (by omega), rfl⟩
  rw [hzero] at hnat
  cases hnat

theorem OwnObjects.inScope (h : OwnObjects host fuel stf tx context w)
    (hforce : InForce host fuel stf tx context w before after)
    (hrequest : request ∈ objectRequests before) :
    request.scope = .transaction (Transaction.computeIdentifier tx) := by
  rcases hforce.scopes request hrequest with hscope | hscope
  · -- a request in the scope of the block is granted, with an id that no transaction has
    have hid : request.id = .ok (blockUniqueId context.height (request.counter + 1)) := by
      rw [ObjectRequest.id, hscope]
      rfl
    obtain ⟨objectId, hpos, hmax, heq⟩ :=
      h.of_mem hforce (mem_handedOut.mpr ⟨request, hrequest, hid⟩)
    exact (blockUniqueId_ne_txUniqueId hmax hpos heq).elim
  · exact hscope

theorem OwnObjects.fresh (h : OwnObjects host fuel stf tx context w)
    (hmax : NeverWraps host fuel stf tx context w)
    (hforce : InForce host fuel stf tx context w before after) (hids : handedOut before ≠ []) :
    w.storage.uniqueObjects = 0 := by
  obtain ⟨id, ids, hcons⟩ := List.exists_cons_of_ne_nil hids
  have hfirst : (handedOut before)[0]? = some id := by
    rw [hcons]
    rfl
  obtain ⟨-, rfl⟩ := h.numbered before after hforce 0 id hfirst
  obtain ⟨request, hrequest, hid⟩ := mem_handedOut.mp (List.mem_of_getElem? hfirst)
  have hcounter : request.counter = 0 := by
    rcases uniqueId_ok hid with ⟨height, hblock⟩ | ⟨txId, -, hmax, htx⟩
    · exact (blockUniqueId_ne_txUniqueId (by decide) (by decide) hblock.symm).elim
    · exact add_right_cancel ((txUniqueId_inj (by decide) hmax htx).symm.trans (zero_add 1).symm)
  have hmem : request.counter.toNat ∈
      List.range' w.storage.uniqueObjects.toNat (objectRequests before).length := by
    rw [← hforce.consecutive.map_counter (hmax before after hforce)]
    exact List.mem_map_of_mem hrequest
  obtain ⟨hle, -⟩ := List.mem_range'_1.mp hmem
  rw [hcounter] at hle
  exact UInt64.toNat_inj.mp (Nat.le_zero.mp hle)

variable (host fuel stf tx context w) in
/-- For every transaction, from every state, with every account code, as long as the counter does
not wrap: its ids are its own, numbered from one, and requests are refused only when it has all of
them, if and only if nothing was counted before it and it asks in its own scope only, or it never
has an id and none of its requests is refused. -/
theorem ownObjects_iff_countsAlone (hmax : NeverWraps host fuel stf tx context w) :
    OwnObjects host fuel stf tx context w ↔
      CountsAlone host fuel stf tx context w ∨ AsksNothing host fuel stf tx context w := by
  constructor
  · intro h
    by_cases hfresh : w.storage.uniqueObjects = 0
    · exact .inl ⟨hfresh, fun _ _ hforce _ => h.inScope hforce⟩
    have hnone : ∀ before after, InForce host fuel stf tx context w before after →
        handedOut before = [] := by
      intro before after hforce
      by_contra hids
      exact hfresh (h.fresh hmax hforce hids)
    refine .inr ⟨hnone, fun before action after request hforce hrequest hrefused => ?_⟩
    have hfull := h.refused before action after request hforce hrequest hrefused
    rw [hnone before _ hforce] at hfull
    exact absurd hfull (by decide)
  · rintro (h | h)
    · exact h.ownObjects hmax
    · refine ⟨fun before after hforce k id hid => ?_, fun before action after request hforce
        hrequest hrefused => ?_⟩
      · rw [h.none before after hforce] at hid
        cases hid
      · exact absurd hrefused (h.granted before action after request hforce hrequest)

end

deriving instance DecidableEq for ExecutionScope

/-- Code that asks for two ids. -/
def plainCode : AccountCode where
  init _ _ := Prog.ofExcept (InvokeResponse.new ())
  execute _ _ := .call .uniqueId fun _ =>
    .call .uniqueId fun _ => Prog.ofExcept (InvokeResponse.new ())
  query _ _ := Prog.throw errUnknownFunction

def plainHost : Host := { askingHost with withCode := fun _ => .ok (some plainCode) }

theorem plain_counters {before after : List Action}
    (h : InForce plainHost 3 (askingStf 0) askingTx ⟨1, 0⟩ askingWorld before after) :
    ∀ request ∈ objectRequests before,
      (request.counter, request.scope) ∈
        [(0, .transaction zeroTxId), (1, .transaction zeroTxId)] := by
  obtain ⟨pin, htrace, -⟩ := h
  have hall : (objectRequests (txTrace plainHost 3 (askingStf 0) askingTx ⟨1, 0⟩ askingWorld
      pin)).map (fun request => (request.counter, request.scope)) =
        [(0, .transaction zeroTxId), (1, .transaction zeroTxId)] := by
    with_unfolding_all rfl
  intro request hrequest
  rw [← hall, htrace, objectRequests_append, List.map_append]
  exact List.mem_append_left _ (List.mem_map_of_mem hrequest)

/-- From a state in which nothing is counted the transaction has the numbers one and two. -/
theorem ownObjects_asking :
    handedOut (txTrace plainHost 3 (askingStf 0) askingTx ⟨1, 0⟩ askingWorld fun _ => false) =
        [txUniqueId zeroTxId 1, txUniqueId zeroTxId 2] ∧
      OwnObjects plainHost 3 (askingStf 0) askingTx ⟨1, 0⟩ askingWorld := by
  refine ⟨by decide +kernel, (ownObjects_iff_countsAlone _ _ _ _ _ _ ?_).2 (.inl ⟨rfl, ?_⟩)⟩
  · intro before after hforce request hrequest
    rcases List.mem_pair.mp (plain_counters hforce request hrequest) with h | h <;>
      rw [(Prod.mk.inj h).1] <;> decide
  · intro before after hforce request hrequest
    rcases List.mem_pair.mp (plain_counters hforce request hrequest) with h | h <;>
      exact (Prod.mk.inj h).2

theorem askingBlock_begins :
    Exec.Ends ((askingStf 1).doBeginBlock askingHost 3 askingBlock) (fun r w => r = .ok [] ∧
      handedOut (txTrace askingHost 3 (askingStf 1) askingTx ⟨1, 0⟩ w fun _ => false) =
        [txUniqueId zeroTxId 2, txUniqueId zeroTxId 3]) askingWorld := by
  decide +kernel

/-- After a begin blocker that has asked for one id, the first id of the transaction is its
second. -/
theorem asking_not_ownObjects :
    ∃ w, (askingStf 1).doBeginBlock askingHost 3 askingBlock askingWorld = .done (.ok [], w) ∧
      handedOut (txTrace askingHost 3 (askingStf 1) askingTx ⟨1, 0⟩ w fun _ => false) =
        [txUniqueId zeroTxId 2, txUniqueId zeroTxId 3] ∧
      ¬ OwnObjects askingHost 3 (askingStf 1) askingTx ⟨1, 0⟩ w := by
  obtain ⟨_, w, hbegin, rfl, hids⟩ := askingBlock_begins.exists
  refine ⟨w, hbegin, hids, fun h => ?_⟩
  have hfirst := (h.numbered _ [] ⟨fun _ => false, (List.append_nil _).symm, by simp⟩ 0
    (txUniqueId zeroTxId 2) (by rw [hids]; rfl)).2
  revert hfirst
  decide

end Evolve
