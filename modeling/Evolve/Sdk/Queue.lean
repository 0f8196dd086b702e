import Mathlib
import Evolve.Sdk.Vector

/-! A queue in account storage against the double-ended list that it stands for: two cursors, and
one slot for each index between them. -/

namespace Evolve

open Machine Effects Refinement

def errEmpty : ErrorCode := defineError 0x02
def errDataCorruption : ErrorCode := defineError 0x03

structure Queue (V : Type) where
  front : Item UInt64
  back : Item UInt64
  items : Map UInt64 V

structure QueueIter (V : Type) where
  queue : Queue V
  index : UInt64
  endIndex : UInt64

section Programs

variable {V : Type} [Encodable V]

variable (queue : Queue V) (env : Env)

namespace Queue

def new (frontPrefix backPrefix itemsPrefix : UInt8) : Queue V :=
  ⟨⟨frontPrefix⟩, ⟨backPrefix⟩, ⟨itemsPrefix⟩⟩

def getBack : QueryProgram UInt64 := do
  let stored ← queue.back.mayGet env ()
  pure (stored.getD 0)

def getFront : QueryProgram UInt64 := do
  let stored ← queue.front.mayGet env ()
  pure (stored.getD 0)

def pushBack (item : V) : Program Unit := do
  let back ← (queue.getBack env).lift
  queue.items.set back item
  queue.back.set () (back + 1)

def popFront : Program V := do
  let front ← (queue.getFront env).lift
  let back ← (queue.getBack env).lift
  if front = back then Prog.throw errEmpty
  else do
    let item ← (queue.items.get env front).lift
    queue.items.remove front
    queue.front.set () (front + 1)
    pure item

def popBack : Program V := do
  let front ← (queue.getFront env).lift
  let back ← (queue.getBack env).lift
  if back = front then Prog.throw errEmpty
  else do
    let lastIndex := back - 1
    let item ← (queue.items.get env lastIndex).lift
    queue.items.remove lastIndex
    queue.back.set () lastIndex
    pure item

def isEmpty : QueryProgram Bool := do
  let front ← queue.getFront env
  let back ← queue.getBack env
  pure (front == back)

def iter : QueryProgram (QueueIter V) := do
  let front ← queue.getFront env
  let back ← queue.getBack env
  pure ⟨queue, front, back⟩

end Queue

def QueueIter.next (iter : QueueIter V) : QueryProgram (Option (SdkResult V) × QueueIter V) :=
  if iter.index ≥ iter.endIndex then pure (none, iter)
  else do
    let itemResult ← (iter.queue.items.mayGet env iter.index).attempt
    let item : SdkResult V :=
      match itemResult with
      | .ok (some item) => .ok item
      | .ok none => .error errDataCorruption
      | .error e => .error e
    pure (some item, { iter with index := iter.index + 1 })

/-- The first `n` items of `iter`. -/
def Queue.firstItems (n : Nat) (env : Env) : QueryProgram (List (SdkResult V)) := do
  let iter ← queue.iter env
  takeItems (QueueIter.next env) n iter

end Programs

namespace Queue

variable {V : Type} [Encodable V]

/-! ### What is stored -/

/-- What the slot at `i` holds if the list starts at `front`. -/
def slot (front : Nat) (list : List V) (i : Nat) : Option V :=
  if front ≤ i then list[i - front]? else none

structure Represents (queue : Queue V) (owner : AccountId) (front : Nat) (list : List V)
    (w : World) : Prop where
  small : front + list.length < 2 ^ 64
  atFront : queue.front.Counts owner (UInt64.ofNat front) w
  atBack : queue.back.Counts owner (UInt64.ofNat (front + list.length)) w
  slots : ∀ i, queue.items.read w.storage owner i = .ok (slot front list i.toNat)

variable {queue : Queue V} {owner : AccountId} {front : Nat} {list : List V} {w w' : World}

theorem Represents.of_sameStore (h : queue.Represents owner front list w)
    (hsame : w.SameStore w') : queue.Represents owner front list w' where
  small := h.small
  atFront := h.atFront.of_read (queue.front.read_congr hsame ..)
  atBack := h.atBack.of_read (queue.back.read_congr hsame ..)
  slots i := by rw [queue.items.read_congr hsame, h.slots]

section Slots

omit [Encodable V]

variable {i : Nat} {v : V}

theorem slot_eq_some (h : list[i]? = some v) : slot front list (front + i) = some v := by
  rw [slot, if_pos (Nat.le_add_right front i), Nat.add_sub_cancel_left, h]

theorem slot_append_self (front : Nat) (list : List V) (v : V) :
    slot front (list ++ [v]) (front + list.length) = some v :=
  slot_eq_some List.getElem?_concat_length

theorem slot_append_of_ne (h : i ≠ front + list.length) :
    slot front (list ++ [v]) i = slot front list i := by
  unfold slot
  split
  · exact Vector.getElem?_concat_of_ne (by omega)
  · rfl

theorem slot_length (front : Nat) (list : List V) :
    slot front list (front + list.length) = none := by
  rw [slot, if_pos (Nat.le_add_right front _), Nat.add_sub_cancel_left,
    List.getElem?_eq_none le_rfl]

theorem slot_tail (front : Nat) (list : List V) : slot (front + 1) list front = none :=
  if_neg (Nat.not_succ_le_self front)

theorem slot_tail_of_ne (h : i ≠ front) : slot (front + 1) list i = slot front (v :: list) i := by
  unfold slot
  by_cases hi : front + 1 ≤ i
  · rw [if_pos hi, if_pos (by omega), show i - front = i - (front + 1) + 1 by omega,
      List.getElem?_cons_succ]
  · rw [if_neg hi, if_neg (by omega)]

end Slots

/-! ### Operations -/

variable {host : Host} {fuel : Nat} {frame : Invoker}

theorem delivers_getFront (h : queue.Represents frame.whoami front list w) :
    Prog.Delivers (environment host fuel frame) (queue.getFront frame.env).lift
      (fun n w' => n = UInt64.ofNat front ∧ w.SameStore w') w := Map.delivers_count h.atFront

theorem delivers_getBack (h : queue.Represents frame.whoami front list w) :
    Prog.Delivers (environment host fuel frame) (queue.getBack frame.env).lift
      (fun n w' => n = UInt64.ofNat (front + list.length) ∧ w.SameStore w') w :=
  Map.delivers_count h.atBack

theorem delivers_pushBack {item : V} (hcursors : queue.front.keyPrefix ≠ queue.back.keyPrefix)
    (h : queue.Represents frame.whoami front list w) (hitem : Storable item)
    (hsmall : front + (list ++ [item]).length < 2 ^ 64) :
    Prog.Delivers (environment host fuel frame) (queue.pushBack frame.env item)
      (fun _ w' => queue.Represents frame.whoami front (list ++ [item]) w') w := by
  have hback : UInt64.ofNat (front + list.length) + 1 =
      UInt64.ofNat (front + (list ++ [item]).length) := by
    rw [List.length_append, ← Nat.add_assoc, UInt64.ofNat_add (front + list.length)]
    rfl
  refine .bind ((delivers_getBack h).mono ?_)
  rintro _ w₁ ⟨rfl, hsame⟩
  replace h := h.of_sameStore hsame
  refine .bind ((Map.delivers_set (storable_u64 _) hitem).mono fun _ w₂ hput => ?_)
  rw [hback]
  refine (Map.delivers_set (storable_unit ()) (storable_u64 _)).mono fun _ w₃ hcursor => ?_
  have hfront : queue.front.read w₃.storage frame.whoami () =
      queue.front.read w₁.storage frame.whoami () := by
    rw [hcursor.read_apart (Map.apart_of_ne hcursors), hput.read_apart (Map.apart_item _ _)]
  have hslots : ∀ i, queue.items.read w₂.storage frame.whoami i =
      .ok (slot front (list ++ [item]) i.toNat) := by
    refine hput.read_slot h.slots ?_ fun i hi => ?_
    · rw [toNat_ofNat h.small, slot_append_self]
    · rw [slot_append_of_ne hi]
  refine ⟨hsmall, h.atFront.of_read hfront, ⟨_, hcursor.read, rfl⟩, fun i => ?_⟩
  rw [hcursor.read_apart (Map.apart_item _ _).symm, hslots]

theorem delivers_popFront {v : V} (hcursors : queue.front.keyPrefix ≠ queue.back.keyPrefix)
    (h : queue.Represents frame.whoami front (v :: list) w) :
    Prog.Delivers (environment host fuel frame) (queue.popFront frame.env)
      (fun item w' => item = v ∧ queue.Represents frame.whoami (front + 1) list w') w := by
  have hsmall := h.small
  rw [List.length_cons] at hsmall
  have hback : front + 1 + list.length = front + (v :: list).length := by
    rw [List.length_cons]
    omega
  have hne : UInt64.ofNat front ≠ UInt64.ofNat (front + (v :: list).length) := by
    rw [Ne, ← UInt64.toNat_inj, toNat_ofNat h.small, toNat_ofNat (by omega), List.length_cons]
    omega
  refine .bind ((delivers_getFront h).mono ?_)
  rintro _ w₁ ⟨rfl, hsame⟩
  replace h := h.of_sameStore hsame
  refine .bind ((delivers_getBack h).mono ?_)
  rintro _ w₂ ⟨rfl, hsame'⟩
  replace h := h.of_sameStore hsame'
  rw [if_neg hne]
  have hread : queue.items.read w₂.storage frame.whoami (UInt64.ofNat front) = .ok (some v) := by
    rw [h.slots, toNat_ofNat (by omega)]
    exact congrArg Except.ok (slot_eq_some (i := 0) rfl)
  refine .bind ((Map.delivers_get (storable_u64 _) hread).mono ?_)
  rintro _ w₃ ⟨rfl, hsame''⟩
  replace h := h.of_sameStore hsame''
  refine .bind ((Map.delivers_remove (storable_u64 _)).mono fun _ w₄ hput => ?_)
  refine .bind ((Map.delivers_set (storable_unit ()) (storable_u64 _)).mono
    fun _ w₅ hcursor => .pure ⟨rfl, ?_⟩)
  have hbackRead : queue.back.read w₅.storage frame.whoami () =
      queue.back.read w₃.storage frame.whoami () := by
    rw [hcursor.read_apart (Map.apart_of_ne hcursors.symm), hput.read_apart (Map.apart_item _ _)]
  have hslots : ∀ i, queue.items.read w₄.storage frame.whoami i =
      .ok (slot (front + 1) list i.toNat) := by
    refine hput.read_slot h.slots ?_ fun i hi => ?_
    · rw [toNat_ofNat (by omega), slot_tail]
    · rw [slot_tail_of_ne hi]
  refine ⟨by omega, ⟨_, hcursor.read, ?_⟩, hback ▸ h.atBack.of_read hbackRead, fun i => ?_⟩
  · rw [UInt64.ofNat_add]
    rfl
  · rw [hcursor.read_apart (Map.apart_item _ _).symm, hslots]

theorem delivers_popBack {last : V} (hcursors : queue.front.keyPrefix ≠ queue.back.keyPrefix)
    (h : queue.Represents frame.whoami front (list ++ [last]) w) :
    Prog.Delivers (environment host fuel frame) (queue.popBack frame.env)
      (fun item w' => item = last ∧ queue.Represents frame.whoami front list w') w := by
  have hsmall := h.small
  rw [List.length_append, List.length_singleton] at hsmall
  have hne : UInt64.ofNat (front + (list ++ [last]).length) ≠ UInt64.ofNat front := by
    rw [Ne, ← UInt64.toNat_inj, toNat_ofNat h.small, toNat_ofNat (by omega), List.length_append,
      List.length_singleton]
    omega
  have hlast : UInt64.ofNat (front + (list ++ [last]).length) - 1 =
      UInt64.ofNat (front + list.length) := by
    rw [List.length_append, ← Nat.add_assoc]
    exact (UInt64.ofNat_sub (Nat.le_add_left 1 (front + list.length))).symm
  refine .bind ((delivers_getFront h).mono ?_)
  rintro _ w₁ ⟨rfl, hsame⟩
  replace h := h.of_sameStore hsame
  refine .bind ((delivers_getBack h).mono ?_)
  rintro _ w₂ ⟨rfl, hsame'⟩
  replace h := h.of_sameStore hsame'
  rw [if_neg hne, hlast]
  have hread : queue.items.read w₂.storage frame.whoami (UInt64.ofNat (front + list.length)) =
      .ok (some last) := by
    rw [h.slots, toNat_ofNat (by omega), slot_append_self]
  refine .bind ((Map.delivers_get (storable_u64 _) hread).mono ?_)
  rintro _ w₃ ⟨rfl, hsame''⟩
  replace h := h.of_sameStore hsame''
  refine .bind ((Map.delivers_remove (storable_u64 _)).mono fun _ w₄ hput => ?_)
  refine .bind ((Map.delivers_set (storable_unit ()) (storable_u64 _)).mono
    fun _ w₅ hcursor => .pure ⟨rfl, ?_⟩)
  have hfront : queue.front.read w₅.storage frame.whoami () =
      queue.front.read w₃.storage frame.whoami () := by
    rw [hcursor.read_apart (Map.apart_of_ne hcursors), hput.read_apart (Map.apart_item _ _)]
  have hslots : ∀ i, queue.items.read w₄.storage frame.whoami i =
      .ok (slot front list i.toNat) := by
    refine hput.read_slot h.slots ?_ fun i hi => ?_
    · rw [toNat_ofNat (by omega), slot_length]
    · rw [slot_append_of_ne hi]
  refine ⟨by omega, h.atFront.of_read hfront, ⟨_, hcursor.read, rfl⟩, fun i => ?_⟩
  rw [hcursor.read_apart (Map.apart_item _ _).symm, hslots]

theorem concludes_cursors_empty {f : UInt64 → UInt64 → Program V}
    (h : queue.Represents frame.whoami front [] w)
    (hf : ∀ cursor, f cursor cursor = Prog.throw errEmpty) :
    Prog.Concludes (environment host fuel frame)
      (do
        let front ← (queue.getFront frame.env).lift
        let back ← (queue.getBack frame.env).lift
        f front back)
      (fun r w' => r = .error errEmpty ∧ w.SameStore w') w := by
  refine .bind ((delivers_getFront h).mono ?_)
  rintro _ w₁ ⟨rfl, hsame⟩
  refine .bind ((delivers_getBack (h.of_sameStore hsame)).mono ?_)
  rintro _ w₂ ⟨rfl, hsame'⟩
  rw [List.length_nil, Nat.add_zero, hf]
  exact .throw ⟨rfl, hsame.trans hsame'⟩

theorem concludes_popFront_empty (h : queue.Represents frame.whoami front [] w) :
    Prog.Concludes (environment host fuel frame) (queue.popFront frame.env)
      (fun r w' => r = .error errEmpty ∧ w.SameStore w') w :=
  concludes_cursors_empty h fun _ => if_pos rfl

theorem concludes_popBack_empty (h : queue.Represents frame.whoami front [] w) :
    Prog.Concludes (environment host fuel frame) (queue.popBack frame.env)
      (fun r w' => r = .error errEmpty ∧ w.SameStore w') w :=
  concludes_cursors_empty h fun _ => if_pos rfl

/-! ### Queries -/

theorem delivers_isEmpty (h : queue.Represents frame.whoami front list w) :
    Prog.Delivers (environment host fuel frame) (queue.isEmpty frame.env).lift
      (fun r _ => r = list.isEmpty) w := by
  have hsmall := h.small
  unfold isEmpty
  rw [QueryProgram.lift_bind]
  refine .bind ((delivers_getFront h).mono ?_)
  rintro _ w₁ ⟨rfl, hsame⟩
  rw [QueryProgram.lift_bind]
  refine .bind ((delivers_getBack (h.of_sameStore hsame)).mono ?_)
  rintro _ w₂ ⟨rfl, -⟩
  refine .pure ?_
  rw [Bool.eq_iff_iff, beq_iff_eq, ← UInt64.toNat_inj, toNat_ofNat hsmall,
    toNat_ofNat (by omega), List.isEmpty_iff_length_eq_zero]
  omega

theorem delivers_next {k : Nat} {v : V} (h : queue.Represents frame.whoami front list w)
    (hv : list[k]? = some v) :
    Prog.Delivers (environment host fuel frame)
      (QueueIter.next frame.env
        ⟨queue, UInt64.ofNat (front + k), UInt64.ofNat (front + list.length)⟩).lift
      (fun r w' => r = (some (.ok v), ⟨queue, UInt64.ofNat (front + (k + 1)),
        UInt64.ofNat (front + list.length)⟩) ∧ w.SameStore w') w := by
  have hsmall := h.small
  obtain ⟨hk, -⟩ := List.getElem?_eq_some_iff.mp hv
  have hnot : ¬ UInt64.ofNat (front + k) ≥ UInt64.ofNat (front + list.length) := by
    rw [ge_iff_le, UInt64.le_iff_toNat_le, toNat_ofNat hsmall, toNat_ofNat (by omega)]
    omega
  have hread : queue.items.read w.storage frame.whoami (UInt64.ofNat (front + k)) =
      .ok (some v) := by
    rw [h.slots, toNat_ofNat (by omega), slot_eq_some hv]
  unfold QueueIter.next
  rw [if_neg hnot, QueryProgram.lift_bind, QueryProgram.lift_attempt]
  refine .bind ((Map.delivers_mayGet (storable_u64 _) hread).attempt.mono ?_)
  rintro _ w' ⟨_, rfl, rfl, hsame⟩
  refine .pure ⟨?_, hsame⟩
  rw [← Nat.add_assoc front, UInt64.ofNat_add (front + k)]
  rfl

theorem delivers_firstItems (n : Nat) (h : queue.Represents frame.whoami front list w) :
    Prog.Delivers (environment host fuel frame) (queue.firstItems n frame.env).lift
      (fun items _ => items = (list.take n).map .ok) w := by
  unfold firstItems iter
  rw [QueryProgram.lift_bind, QueryProgram.lift_bind]
  refine .bind (.bind ((delivers_getFront h).mono ?_))
  rintro _ w₁ ⟨rfl, hsame⟩
  rw [QueryProgram.lift_bind]
  refine .bind ((delivers_getBack (h.of_sameStore hsame)).mono ?_)
  rintro _ w₂ ⟨rfl, hsame'⟩
  let iterAt (k : Nat) : QueueIter V :=
    ⟨queue, UInt64.ofNat (front + k), UInt64.ofNat (front + list.length)⟩
  refine .pure (delivers_takeItems list iterAt (fun w' _ => ?_) ?_ n (Nat.zero_le _)
    (hsame.trans hsame'))
  · unfold QueueIter.next
    rw [if_pos (UInt64.le_refl _)]
    exact .pure rfl
  · exact fun k v w' hsame hv => delivers_next (h.of_sameStore hsame) hv

/-! ### Against double-ended lists -/

/-- What the queries show of a list, and that nothing is stored outside the range of the cursors. -/
structure ReadsAs (queue : Queue V) (host : Host) (owner : AccountId) (w : World)
    (list : List V) : Prop where
  isEmpty : Answers host owner queue.isEmpty list.isEmpty w
  iter : ∀ n, Answers host owner (queue.firstItems n) ((list.take n).map .ok) w
  outside : ∃ front back, queue.front.Counts owner front w ∧ queue.back.Counts owner back w ∧
    ∀ i, i < front ∨ back ≤ i → queue.items.read w.storage owner i = .ok none

theorem Represents.readsAs (h : queue.Represents owner front list w) :
    queue.ReadsAs host owner w list where
  isEmpty := by
    rintro fuel frame w' rfl hsame
    exact delivers_isEmpty (h.of_sameStore hsame)
  iter n := by
    rintro fuel frame w' rfl hsame
    exact delivers_firstItems n (h.of_sameStore hsame)
  outside := by
    have hsmall := h.small
    refine ⟨_, _, h.atFront, h.atBack, fun i hi => ?_⟩
    rw [UInt64.lt_iff_toNat_lt, UInt64.le_iff_toNat_le, toNat_ofNat hsmall,
      toNat_ofNat (by omega)] at hi
    rw [h.slots, slot]
    split
    · rw [List.getElem?_eq_none (by omega)]
    · rfl

inductive Op (V : Type) where
  | pushBack (item : V)
  | popFront
  | popBack
deriving DecidableEq

namespace Op

def program (queue : Queue V) (op : Op V) (env : Env) : Program (Option V) :=
  match op with
  | .pushBack item => do
    queue.pushBack env item
    pure none
  | .popFront => do
    let item ← queue.popFront env
    pure (some item)
  | .popBack => do
    let item ← queue.popBack env
    pure (some item)

def Storable : Op V → Prop
  | .pushBack item => Evolve.Storable item
  | _ => True

def isPush : Op V → Bool
  | .pushBack _ => true
  | _ => false

end Op

/-- A list, and how many elements have ever been pushed. -/
structure Deque (V : Type) where
  list : List V
  pushes : Nat

def dequeType (V : Type) : DataType (Op V) (SdkResult (Option V)) (Deque V) where
  answer op deque :=
    match op with
    | .pushBack _ => .ok none
    | .popFront => deque.list.head?.elim (.error errEmpty) fun v => .ok (some v)
    | .popBack => deque.list.getLast?.elim (.error errEmpty) fun v => .ok (some v)
  next op deque :=
    match op with
    | .pushBack item => ⟨deque.list ++ [item], deque.pushes + 1⟩
    | .popFront => ⟨deque.list.tail, deque.pushes⟩
    | .popBack => ⟨deque.list.dropLast, deque.pushes⟩

abbrev QueueStep (V : Type) := Step World (Op V) (SdkResult (Option V))

def Performs (queue : Queue V) (host : Host) (owner : AccountId) (step : QueueStep V) : Prop :=
  step.op.Storable ∧
    Performed host owner (step.op.program queue) step.before step.result step.after

/-- Whatever has happened has left the entries of the queue as they were. -/
structure SameEntries (queue : Queue V) (owner : AccountId) (w w' : World) : Prop where
  front : queue.front.read w'.storage owner () = queue.front.read w.storage owner ()
  back : queue.back.read w'.storage owner () = queue.back.read w.storage owner ()
  items : ∀ i, queue.items.read w'.storage owner i = queue.items.read w.storage owner i

structure Empty (queue : Queue V) (owner : AccountId) (w : World) : Prop where
  front : queue.front.read w.storage owner () = .ok none
  back : queue.back.read w.storage owner () = .ok none
  items : ∀ i, queue.items.read w.storage owner i = .ok none

theorem Empty.represents (h : queue.Empty owner w) : queue.Represents owner 0 [] w where
  small := Nat.two_pow_pos 64
  atFront := ⟨none, h.front, rfl⟩
  atBack := ⟨none, h.back, rfl⟩
  slots := h.items

theorem Represents.of_sameEntries (h : queue.Represents owner front list w)
    (hsame : queue.SameEntries owner w w') : queue.Represents owner front list w' where
  small := h.small
  atFront := h.atFront.of_read hsame.front
  atBack := h.atBack.of_read hsame.back
  slots i := by rw [hsame.items, h.slots]

/-- The queue stands for the list, and its cursors have not passed the number of pushes. -/
def Shows (queue : Queue V) (owner : AccountId) (w : World) (deque : Deque V) : Prop :=
  ∃ front, queue.Represents owner front deque.list w ∧
    front + deque.list.length ≤ deque.pushes

def Small (step : QueueStep V) (deque : Deque V) : Prop :=
  ((dequeType V).next step.op deque).pushes < 2 ^ 64

theorem follows {step : QueueStep V} {deque : Deque V}
    (hcursors : queue.front.keyPrefix ≠ queue.back.keyPrefix)
    (hperforms : queue.Performs host owner step) (hsmall : Small step deque)
    (h : queue.Shows owner step.before deque) :
    (dequeType V).Follows (queue.Shows owner) step deque := by
  obtain ⟨before, op, result, after⟩ := step
  obtain ⟨list, pushes⟩ := deque
  obtain ⟨hstorable, hperformed⟩ := hperforms
  obtain ⟨front, h, hpushes⟩ := h
  dsimp only at h hpushes
  cases op with
  | pushBack item =>
    have hlength : front + (list ++ [item]).length < 2 ^ 64 := by
      have hnext : pushes + 1 < 2 ^ 64 := hsmall
      rw [List.length_append, List.length_singleton]
      omega
    obtain ⟨rfl, hafter⟩ := hperformed.concludes
      (Q := fun r w' => r = .ok none ∧ queue.Represents owner front (list ++ [item]) w') <| by
        rintro fuel frame rfl
        exact .bind ((delivers_pushBack hcursors h hstorable hlength).mono fun _ _ h =>
          .ofExcept ⟨rfl, h⟩)
    refine ⟨rfl, front, hafter, ?_⟩
    show front + (list ++ [item]).length ≤ pushes + 1
    rw [List.length_append, List.length_singleton]
    omega
  | popFront =>
    cases list with
    | nil =>
      obtain ⟨rfl, hsame⟩ := hperformed.concludes
        (Q := fun r w' => r = .error errEmpty ∧ before.SameStore w') <| by
          rintro fuel frame rfl
          exact .bind_error ((concludes_popFront_empty h).mono fun _ _ hafter =>
            ⟨errEmpty, hafter.1, rfl, hafter.2⟩)
      exact ⟨rfl, front, h.of_sameStore hsame, hpushes⟩
    | cons v list =>
      obtain ⟨rfl, hafter⟩ := hperformed.concludes
        (Q := fun r w' => r = .ok (some v) ∧ queue.Represents owner (front + 1) list w') <| by
          rintro fuel frame rfl
          refine .bind ((delivers_popFront hcursors h).mono ?_)
          rintro _ w' ⟨rfl, hafter⟩
          exact .ofExcept ⟨rfl, hafter⟩
      refine ⟨rfl, front + 1, hafter, ?_⟩
      rw [List.length_cons] at hpushes
      show front + 1 + list.length ≤ pushes
      omega
  | popBack =>
    rcases List.eq_nil_or_concat list with rfl | ⟨init, last, rfl⟩
    · obtain ⟨rfl, hsame⟩ := hperformed.concludes
        (Q := fun r w' => r = .error errEmpty ∧ before.SameStore w') <| by
          rintro fuel frame rfl
          exact .bind_error ((concludes_popBack_empty h).mono fun _ _ hafter =>
            ⟨errEmpty, hafter.1, rfl, hafter.2⟩)
      exact ⟨rfl, front, h.of_sameStore hsame, hpushes⟩
    · rw [List.concat_eq_append] at h hpushes ⊢
      obtain ⟨rfl, hafter⟩ := hperformed.concludes
        (Q := fun r w' => r = .ok (some last) ∧ queue.Represents owner front init w') <| by
          rintro fuel frame rfl
          refine .bind ((delivers_popBack hcursors h).mono ?_)
          rintro _ w' ⟨rfl, hafter⟩
          exact .ofExcept ⟨rfl, hafter⟩
      rw [List.length_append] at hpushes
      refine ⟨?_, front, ?_, ?_⟩
      · show Except.ok (some last) = (init ++ [last]).getLast?.elim _ _
        rw [List.getLast?_concat]
        rfl
      · show queue.Represents owner front (init ++ [last]).dropLast after
        rw [List.dropLast_concat]
        exact hafter
      · show front + (init ++ [last]).dropLast.length ≤ pushes
        rw [List.dropLast_concat]
        omega

omit [Encodable V] in
theorem everyStep_small {steps : List (QueueStep V)} {deque : Deque V}
    (h : deque.pushes + steps.countP (fun step => step.op.isPush) < 2 ^ 64) :
    (dequeType V).EveryStep Small deque steps := by
  induction steps generalizing deque with
  | nil => trivial
  | cons step steps ih =>
    have hnext : ((dequeType V).next step.op deque).pushes +
        steps.countP (fun step => step.op.isPush) < 2 ^ 64 := by
      rw [List.countP_cons] at h
      cases hop : step.op with
      | pushBack item =>
        rw [hop] at h
        replace h : deque.pushes + (steps.countP (fun step => step.op.isPush) + 1) < 2 ^ 64 := h
        show deque.pushes + 1 + _ < _
        omega
      | popFront => exact Nat.lt_of_le_of_lt (by show deque.pushes + _ ≤ _; omega) h
      | popBack => exact Nat.lt_of_le_of_lt (by show deque.pushes + _ ≤ _; omega) h
    refine ⟨?_, ih hnext⟩
    show _ < _
    omega

/-- In every run with fewer than 2^64 pushes, with anything in between that leaves the entries
alone, the queue is a double-ended list. -/
theorem refines_deque {steps : List (QueueStep V)}
    (hcursors : queue.front.keyPrefix ≠ queue.back.keyPrefix)
    (hrun : Runs (queue.Performs host owner) (queue.SameEntries owner) w steps)
    (hempty : queue.Empty owner w)
    (hpushes : steps.countP (fun step => step.op.isPush) < 2 ^ 64) :
    (dequeType V).EveryStep
      ((dequeType V).Follows fun w deque => queue.ReadsAs host owner w deque.list)
      ⟨[], 0⟩ steps := by
  have hfollows := hrun.everyStep (R := queue.Shows owner) (m := ⟨[], 0⟩)
    ⟨0, hempty.represents, le_rfl⟩ (everyStep_small (by rwa [Nat.zero_add]))
    (fun hgap ⟨front, h, hpushes⟩ => ⟨front, h.of_sameEntries hgap, hpushes⟩)
    (fun hperforms hsmall h => follows hcursors hperforms hsmall h)
  exact hfollows.mono fun step deque h => h.mono fun _ _ ⟨_, h, _⟩ => h.readsAs

/-! ### A run of a queue of numbers -/

def numbers : Queue UInt64 := .new 1 2 3

def playNumbers : List (Op UInt64) → Option (List (QueueStep UInt64)) :=
  play (fun w op => tryPerform sampleHost 2 Vector.numbersFrame (op.program numbers) w)
    Vector.newWorld

theorem runs_of_playNumbers {ops : List (Op UInt64)} {steps : List (QueueStep UInt64)}
    (h : playNumbers ops = some steps) :
    Runs (numbers.Performs sampleHost (.fromU64 10)) (numbers.SameEntries (.fromU64 10))
      Vector.newWorld steps := by
  refine runs_of_play (fun w => ⟨rfl, rfl, fun _ => rfl⟩) (fun {w op result after} hperform => ?_) h
  refine ⟨?_, performed_of_tryPerform hperform⟩
  cases op with
  | pushBack item => exact storable_u64 item
  | popFront => trivial
  | popBack => trivial

theorem empty_numbers : numbers.Empty (.fromU64 10) Vector.newWorld where
  front := Map.read_new _ _ (storable_unit ())
  back := Map.read_new _ _ (storable_unit ())
  items i := Map.read_new _ _ (storable_u64 i)

theorem refines_deque_numbers :
    ∃ steps, steps.map (fun step => (step.op, step.result)) =
        [(.pushBack 5, .ok none), (.pushBack 6, .ok none), (.popBack, .ok (some 6)),
          (.popFront, .ok (some 5)), (.popFront, .error errEmpty), (.pushBack 7, .ok none)] ∧
      Runs (numbers.Performs sampleHost (.fromU64 10)) (numbers.SameEntries (.fromU64 10))
        Vector.newWorld steps ∧
      (dequeType UInt64).EveryStep ((dequeType UInt64).Follows fun w deque =>
        numbers.ReadsAs sampleHost (.fromU64 10) w deque.list) ⟨[], 0⟩ steps := by
  have hplayed : ∃ steps ∈ playNumbers
        [.pushBack 5, .pushBack 6, .popBack, .popFront, .popFront, .pushBack 7],
      steps.map (fun step => (step.op, step.result)) =
        [(.pushBack 5, .ok none), (.pushBack 6, .ok none), (.popBack, .ok (some 6)),
          (.popFront, .ok (some 5)), (.popFront, .error errEmpty), (.pushBack 7, .ok none)] ∧
      steps.countP (fun step => step.op.isPush) < 2 ^ 64 := by
    decide +kernel
  obtain ⟨steps, hplay, hresults, hpushes⟩ := hplayed
  have hrun := runs_of_playNumbers hplay
  exact ⟨steps, hresults, hrun, refines_deque (by decide) hrun empty_numbers hpushes⟩

end Queue

end Evolve
