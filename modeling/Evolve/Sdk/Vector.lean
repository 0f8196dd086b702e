import Mathlib
import Evolve.Lib.Refinement
import Evolve.Sdk.StorageCalls

/-! A vector in account storage against the list that it stands for.  Its length is an item of its
own in which zero has two forms, absent and stored, and `pop` leaves the element that it returns in
its slot. -/

namespace Evolve

open Machine Effects Refinement

structure Vector (V : Type) where
  index : Item UInt64
  elems : Map UInt64 V

structure VectorIter (V : Type) where
  vector : Vector V
  index : UInt64
  length : UInt64

section Programs

variable {V : Type} [Encodable V]

variable (vector : Vector V) (env : Env)

namespace Vector

def new (indexPrefix elemsPrefix : UInt8) : Vector V := ⟨⟨indexPrefix⟩, ⟨elemsPrefix⟩⟩

def mayGet (index : UInt64) : QueryProgram (Option V) :=
  vector.elems.mayGet env index

def get (index : UInt64) : QueryProgram V :=
  vector.elems.get env index

def push (item : V) : Program Unit := do
  let stored ← (vector.index.mayGet env ()).lift
  let index := stored.getD 0
  vector.elems.set index item
  vector.index.set () (index + 1)

def extendFrom (vector : Vector V) : List V → UInt64 → Program UInt64
  | [], index => pure index
  | item :: items, index => do
    vector.elems.set index item
    vector.extendFrom items (index + 1)

def extend (items : List V) : Program Unit := do
  let stored ← (vector.index.mayGet env ()).lift
  let index ← vector.extendFrom items (stored.getD 0)
  vector.index.set () index

-- the subtractions wrap, as the release profile has no overflow checks
def pop : Program (Option V) := do
  match ← (vector.index.mayGet env ()).lift with
  | some index => do
    let value ← (vector.elems.get env (index - 1)).lift
    if index = 1 then vector.index.remove () else vector.index.set () (index - 1)
    pure (some value)
  | none => pure none

def len : QueryProgram UInt64 := do
  let stored ← vector.index.mayGet env ()
  pure (stored.getD 0)

def iter : QueryProgram (VectorIter V) := do
  let length ← vector.len env
  pure ⟨vector, 0, length⟩

end Vector

def VectorIter.next (iter : VectorIter V) : QueryProgram (Option (SdkResult V) × VectorIter V) :=
  if iter.index ≥ iter.length then pure (none, iter)
  else do
    let result ← (iter.vector.get env iter.index).attempt
    pure (some result, { iter with index := iter.index + 1 })

/-- The first `n` items of `iter`. -/
def Vector.firstItems (n : Nat) (env : Env) : QueryProgram (List (SdkResult V)) := do
  let iter ← vector.iter env
  takeItems (VectorIter.next env) n iter

end Programs

theorem Map.Puts.read_slot {V : Type} [Encodable V] {m : Map UInt64 V} {owner : AccountId} {n : Nat}
    {value : Option V} {w w' : World} (h : m.Puts owner (UInt64.ofNat n) value w w')
    {before after : UInt64 → SdkResult (Option V)}
    (hbefore : ∀ i, m.read w.storage owner i = before i)
    (hself : after (UInt64.ofNat n) = .ok value)
    (hother : ∀ i, i.toNat ≠ n → after i = before i) (i : UInt64) :
    m.read w'.storage owner i = after i := by
  by_cases hi : i = UInt64.ofNat n
  · rw [hi, h.read, hself]
  · have hne : i.toNat ≠ n := fun heq => hi (by rw [← heq, UInt64.ofNat_toNat])
    rw [h.read_other hi, hbefore, hother i hne]

namespace Vector

variable {V : Type} [Encodable V]

/-! ### What is stored -/

/-- The slots hold `list`, and `stale` from its end on. -/
def Holds (vector : Vector V) (owner : AccountId) (list : List V)
    (stale : UInt64 → SdkResult (Option V)) (w : World) : Prop :=
  ∀ i, vector.elems.read w.storage owner i =
    list[i.toNat]?.elim (stale i) fun v => .ok (some v)

structure Represents (vector : Vector V) (owner : AccountId) (list : List V)
    (stale : UInt64 → SdkResult (Option V)) (w : World) : Prop where
  small : list.length < 2 ^ 64
  length : vector.index.Counts owner (UInt64.ofNat list.length) w
  holds : vector.Holds owner list stale w

variable {vector : Vector V} {owner : AccountId} {list : List V}
  {stale : UInt64 → SdkResult (Option V)} {w w' : World}

theorem Holds.of_sameStore (h : vector.Holds owner list stale w) (hsame : w.SameStore w') :
    vector.Holds owner list stale w' := fun i => by
  rw [vector.elems.read_congr hsame, h]

theorem Holds.of_index {value : Option UInt64} (h : vector.Holds owner list stale w)
    (hindex : vector.index.Puts owner () value w w') : vector.Holds owner list stale w' := by
  intro i
  rw [hindex.read_apart (Map.apart_item vector.elems vector.index).symm, h]

theorem Represents.of_sameStore (h : vector.Represents owner list stale w)
    (hsame : w.SameStore w') : vector.Represents owner list stale w' where
  small := h.small
  length := h.length.of_read (vector.index.read_congr hsame ..)
  holds := h.holds.of_sameStore hsame

omit [Encodable V] in
theorem getElem?_concat_of_ne {last : V} {i : Nat} (h : i ≠ list.length) :
    (list ++ [last])[i]? = list[i]? := by
  rw [List.getElem?_append]
  split
  · rfl
  · rw [List.getElem?_eq_none (by rw [List.length_singleton]; omega),
      List.getElem?_eq_none (by omega)]

theorem Holds.put {item : V} (h : vector.Holds owner list stale w) (hsmall : list.length < 2 ^ 64)
    (hput : vector.elems.Puts owner (UInt64.ofNat list.length) (some item) w w') :
    vector.Holds owner (list ++ [item]) stale w' := by
  refine hput.read_slot h ?_ fun i hi => ?_
  · rw [toNat_ofNat hsmall, List.getElem?_concat_length]
    rfl
  · rw [getElem?_concat_of_ne hi]

/-- The last element becomes stale. -/
theorem Holds.dropLast {last : V} (h : vector.Holds owner (list ++ [last]) stale w)
    (hsmall : list.length < 2 ^ 64) :
    vector.Holds owner list
      (Function.update stale (UInt64.ofNat list.length) (.ok (some last))) w := by
  intro i
  rw [h i]
  by_cases hi : i = UInt64.ofNat list.length
  · subst hi
    rw [toNat_ofNat hsmall, List.getElem?_concat_length, List.getElem?_eq_none le_rfl,
      Option.elim_none, Function.update_self, Option.elim_some]
  · have hne : i.toNat ≠ list.length := fun heq => hi (by rw [← heq, UInt64.ofNat_toNat])
    rw [getElem?_concat_of_ne hne, Function.update_of_ne hi]

theorem Represents.set {r : Nat} {item : V} (h : vector.Represents owner list stale w)
    (hr : r < list.length) (hput : vector.elems.Puts owner (UInt64.ofNat r) (some item) w w') :
    vector.Represents owner (list.set r item) stale w' := by
  have hsmall := h.small
  have hlength : (list.set r item).length = list.length := List.length_set
  refine ⟨by rwa [hlength], ?_, hput.read_slot h.holds ?_ fun i hi => ?_⟩
  · rw [hlength]
    exact h.length.of_read (hput.read_apart (Map.apart_item _ _) ())
  · rw [toNat_ofNat (by omega), List.getElem?_set_self hr]
    rfl
  · rw [List.getElem?_set_ne hi.symm]

/-- Maps that have no entry in common with the vector are as they were. -/
def LeavesOthers (vector : Vector V) (owner : AccountId) (w w' : World) : Prop :=
  ∀ {K' V' : Type} [Encodable K'] [Encodable V'] {m : Map K' V'}, vector.index.Apart m →
    vector.elems.Apart m → ∀ key, m.read w'.storage owner key = m.read w.storage owner key

/-! ### Operations -/

variable {host : Host} {fuel : Nat} {frame : Invoker}

theorem delivers_push {item : V} (h : vector.Represents frame.whoami list stale w)
    (hitem : Storable item) (hsmall : (list ++ [item]).length < 2 ^ 64) :
    Prog.Delivers (environment host fuel frame) (vector.push frame.env item)
      (fun _ w' => vector.Represents frame.whoami (list ++ [item]) stale w' ∧
        vector.LeavesOthers frame.whoami w w') w := by
  obtain ⟨stored, hstored, hlength⟩ := h.length
  refine .bind ((Map.delivers_mayGet (storable_unit ()) hstored).mono ?_)
  rintro _ w₁ ⟨rfl, hsame⟩
  dsimp only
  rw [hlength]
  refine .bind ((Map.delivers_set (storable_u64 _) hitem).mono fun _ w₂ hput => ?_)
  refine (Map.delivers_set (storable_unit ()) (storable_u64 _)).mono fun _ w₃ hindex => ?_
  refine ⟨⟨hsmall, ⟨_, hindex.read, ?_⟩, ?_⟩, fun {K' V'} _ _ m ha he key => ?_⟩
  · rw [List.length_append, UInt64.ofNat_add]
    rfl
  · exact ((h.holds.of_sameStore hsame).put h.small hput).of_index hindex
  · rw [hindex.read_apart ha, hput.read_apart he, m.read_congr hsame]

theorem delivers_extendFrom {items : List V} (hitems : ∀ item ∈ items, Storable item)
    (h : vector.Holds frame.whoami list stale w) (hsmall : (list ++ items).length < 2 ^ 64) :
    Prog.Delivers (environment host fuel frame)
      (vector.extendFrom items (UInt64.ofNat list.length))
      (fun index w' => index = UInt64.ofNat (list ++ items).length ∧
        vector.Holds frame.whoami (list ++ items) stale w') w := by
  induction items generalizing list w with
  | nil => exact .pure (by rw [List.append_nil]; exact ⟨rfl, h⟩)
  | cons item items ih =>
    obtain ⟨hitem, hitems⟩ := List.forall_mem_cons.mp hitems
    have hlength : list.length < 2 ^ 64 := by
      rw [List.length_append] at hsmall
      omega
    have hsplit : list ++ item :: items = list ++ [item] ++ items := by simp
    have hnext : UInt64.ofNat list.length + 1 = UInt64.ofNat (list ++ [item]).length := by
      rw [List.length_append, UInt64.ofNat_add]
      rfl
    rw [hsplit] at hsmall ⊢
    refine .bind ((Map.delivers_set (storable_u64 _) hitem).mono fun _ w₁ hput => ?_)
    rw [hnext]
    exact ih hitems (h.put hlength hput) hsmall

theorem delivers_extend {items : List V} (h : vector.Represents frame.whoami list stale w)
    (hitems : ∀ item ∈ items, Storable item) (hsmall : (list ++ items).length < 2 ^ 64) :
    Prog.Delivers (environment host fuel frame) (vector.extend frame.env items)
      (fun _ w' => vector.Represents frame.whoami (list ++ items) stale w') w := by
  obtain ⟨stored, hstored, hlength⟩ := h.length
  refine .bind ((Map.delivers_mayGet (storable_unit ()) hstored).mono ?_)
  rintro _ w₁ ⟨rfl, hsame⟩
  rw [hlength]
  refine .bind ((delivers_extendFrom hitems (h.holds.of_sameStore hsame) hsmall).mono ?_)
  rintro _ w₂ ⟨rfl, hholds⟩
  refine (Map.delivers_set (storable_unit ()) (storable_u64 _)).mono fun _ w₃ hindex => ?_
  exact ⟨hsmall, ⟨_, hindex.read, rfl⟩, hholds.of_index hindex⟩

theorem delivers_pop {last : V} (h : vector.Represents frame.whoami (list ++ [last]) stale w) :
    Prog.Delivers (environment host fuel frame) (vector.pop frame.env)
      (fun value w' => value = some last ∧ vector.Represents frame.whoami list
        (Function.update stale (UInt64.ofNat list.length) (.ok (some last))) w' ∧
        vector.LeavesOthers frame.whoami w w') w := by
  obtain ⟨stored, hstored, hlength⟩ := h.length
  have hsmall := h.small
  rw [List.length_append, List.length_singleton] at hsmall hlength
  have hlast : vector.elems.read w.storage frame.whoami (UInt64.ofNat list.length) =
      .ok (some last) := by
    rw [h.holds, toNat_ofNat (by omega), List.getElem?_concat_length]
    rfl
  obtain rfl : stored = some (UInt64.ofNat (list.length + 1)) := by
    cases stored with
    | some n => exact congrArg some hlength
    | none =>
      have hzero := congrArg UInt64.toNat hlength
      rw [toNat_ofNat hsmall] at hzero
      cases hzero
  have hpred : UInt64.ofNat (list.length + 1) - 1 = UInt64.ofNat list.length :=
    (UInt64.ofNat_sub (Nat.le_add_left 1 list.length)).symm
  refine .bind ((Map.delivers_mayGet (storable_unit ()) hstored).mono ?_)
  rintro _ w₁ ⟨rfl, hsame⟩
  dsimp only
  rw [hpred]
  rw [← vector.elems.read_congr hsame] at hlast
  refine .bind ((Map.delivers_get (storable_u64 _) hlast).mono ?_)
  rintro _ w₂ ⟨rfl, hsame'⟩
  have hholds := ((h.holds.of_sameStore hsame).of_sameStore hsame').dropLast (by omega)
  have hothers : ∀ {stored w₃}, vector.index.Puts frame.whoami () stored w₂ w₃ →
      vector.LeavesOthers frame.whoami w w₃ := fun hindex _ _ _ _ m ha _ key => by
    rw [hindex.read_apart ha, m.read_congr hsame', m.read_congr hsame]
  split
  · rename_i hone
    refine .bind ((Map.delivers_remove (storable_unit ())).mono fun _ w₃ hindex =>
      .pure ⟨rfl, ⟨by omega, ⟨none, hindex.read, ?_⟩, hholds.of_index hindex⟩, hothers hindex⟩)
    rw [← hpred, hone]
    rfl
  · refine .bind ((Map.delivers_set (storable_unit ()) (storable_u64 _)).mono fun _ w₃ hindex =>
      .pure ⟨rfl, ⟨by omega, ⟨_, hindex.read, rfl⟩, hholds.of_index hindex⟩, hothers hindex⟩)

theorem delivers_pop_absent (habsent : vector.index.read w.storage frame.whoami () = .ok none) :
    Prog.Delivers (environment host fuel frame) (vector.pop frame.env)
      (fun value w' => value = none ∧ w.SameStore w') w := by
  refine .bind ((Map.delivers_mayGet (storable_unit ()) habsent).mono ?_)
  rintro _ w₁ ⟨rfl, hsame⟩
  exact .pure ⟨rfl, hsame⟩

/-- While a length is stored, only a slot that holds an element lets `pop` succeed. -/
theorem returns_pop_stored {n : UInt64}
    (hstored : vector.index.read w.storage frame.whoami () = .ok (some n)) :
    Exec.Returns ((vector.pop frame.env).run (environment host fuel frame))
      (fun _ _ => ∃ value, vector.elems.read w.storage frame.whoami (n - 1) = .ok (some value))
      w := by
  unfold pop
  rw [Prog.run_bind]
  refine .bind ((vector.index.returns_mayGet host fuel frame () w).mono ?_)
  rintro _ w₁ ⟨hsame, hread⟩
  cases hstored.symm.trans hread
  dsimp only
  rw [Prog.run_bind]
  refine .bind ((vector.elems.returns_get host fuel frame (n - 1) w₁).mono ?_)
  rintro value w₂ ⟨-, hread'⟩ _ _ _
  exact ⟨value, by rwa [vector.elems.read_congr hsame] at hread'⟩

/-! ### Queries -/

theorem delivers_len (h : vector.Represents frame.whoami list stale w) :
    Prog.Delivers (environment host fuel frame) (vector.len frame.env).lift
      (fun n w' => n = UInt64.ofNat list.length ∧ w.SameStore w') w := Map.delivers_count h.length

theorem delivers_next {k : Nat} {v : V} (h : vector.Represents frame.whoami list stale w)
    (hv : list[k]? = some v) :
    Prog.Delivers (environment host fuel frame)
      (VectorIter.next frame.env ⟨vector, UInt64.ofNat k, UInt64.ofNat list.length⟩).lift
      (fun r w' => r = (some (.ok v), ⟨vector, UInt64.ofNat (k + 1), UInt64.ofNat list.length⟩) ∧
        w.SameStore w') w := by
  have hsmall := h.small
  obtain ⟨hk, -⟩ := List.getElem?_eq_some_iff.mp hv
  have hnot : ¬ UInt64.ofNat k ≥ UInt64.ofNat list.length := by
    rw [ge_iff_le, UInt64.le_iff_toNat_le, toNat_ofNat hsmall, toNat_ofNat (by omega)]
    omega
  have hread : vector.elems.read w.storage frame.whoami (UInt64.ofNat k) = .ok (some v) := by
    rw [h.holds, toNat_ofNat (by omega), hv]
    rfl
  unfold VectorIter.next
  rw [if_neg hnot, QueryProgram.lift_bind, QueryProgram.lift_attempt]
  refine .bind ((Map.delivers_get (storable_u64 _) hread).attempt.mono ?_)
  rintro _ w' ⟨_, rfl, rfl, hsame⟩
  refine .pure ⟨?_, hsame⟩
  rw [UInt64.ofNat_add]
  rfl

theorem delivers_firstItems (n : Nat) (h : vector.Represents frame.whoami list stale w) :
    Prog.Delivers (environment host fuel frame) (vector.firstItems n frame.env).lift
      (fun items _ => items = (list.take n).map .ok) w := by
  unfold firstItems iter
  rw [QueryProgram.lift_bind, QueryProgram.lift_bind]
  refine .bind (.bind ((delivers_len h).mono ?_))
  rintro _ w₁ ⟨rfl, hsame⟩
  let iterAt (k : Nat) : VectorIter V := ⟨vector, UInt64.ofNat k, UInt64.ofNat list.length⟩
  refine .pure (delivers_takeItems list iterAt (fun w' _ => ?_) ?_ n (Nat.zero_le _) hsame)
  · unfold VectorIter.next
    rw [if_pos (UInt64.le_refl _)]
    exact .pure rfl
  · exact fun k v w' hsame hv => delivers_next (h.of_sameStore hsame) hv

/-! ### Against lists -/

/-- What the queries show of a list. -/
structure ReadsAs (vector : Vector V) (host : Host) (owner : AccountId) (w : World)
    (list : List V) : Prop where
  len : Answers host owner vector.len (UInt64.ofNat list.length) w
  iter : ∀ n, Answers host owner (vector.firstItems n) ((list.take n).map .ok) w
  mayGet : ∀ {i : UInt64} {v}, list[i.toNat]? = some v →
    Answers host owner (fun env => vector.mayGet env i) (some v) w

/-- No slot behind the list holds anything. -/
structure NothingBeyond (vector : Vector V) (host : Host) (owner : AccountId) (w : World)
    (list : List V) : Prop where
  stored : ∀ {i : UInt64}, list.length ≤ i.toNat → vector.elems.read w.storage owner i = .ok none
  mayGet : ∀ {i : UInt64}, list.length ≤ i.toNat →
    Answers host owner (fun env => vector.mayGet env i) none w

theorem Represents.readsAs (h : vector.Represents owner list stale w) :
    vector.ReadsAs host owner w list where
  len := by
    rintro fuel frame w' rfl hsame
    exact (delivers_len (h.of_sameStore hsame)).mono fun _ _ h => h.1
  iter n := by
    rintro fuel frame w' rfl hsame
    exact delivers_firstItems n (h.of_sameStore hsame)
  mayGet {i v} hv := by
    rintro fuel frame w' rfl hsame
    have hread : vector.elems.read w'.storage frame.whoami i = .ok (some v) := by
      rw [(h.of_sameStore hsame).holds, hv]
      rfl
    exact (Map.delivers_mayGet (storable_u64 i) hread).mono fun _ _ h => h.1

/-- What a slot that was never written holds. -/
def nothing : UInt64 → SdkResult (Option V) := fun _ => .ok none

theorem Represents.nothingBeyond (h : vector.Represents owner list nothing w) :
    vector.NothingBeyond host owner w list := by
  have hstored : ∀ {i : UInt64}, list.length ≤ i.toNat →
      vector.elems.read w.storage owner i = .ok none := fun {i} hi => by
    rw [h.holds, List.getElem?_eq_none hi]
    rfl
  refine ⟨hstored, ?_⟩
  rintro i hi fuel frame w' rfl hsame
  have hread := hstored hi
  rw [← vector.elems.read_congr hsame] at hread
  exact (Map.delivers_mayGet (storable_u64 i) hread).mono fun _ _ h => h.1

inductive Op (V : Type) where
  | push (item : V)
  | extend (items : List V)
  | pop
deriving DecidableEq

namespace Op

def program (vector : Vector V) (op : Op V) (env : Env) : Program (Option V) :=
  match op with
  | .push item => do
    vector.push env item
    pure none
  | .extend items => do
    vector.extend env items
    pure none
  | .pop => vector.pop env

/-- Everything that the operation writes can be stored. -/
def Storable : Op V → Prop
  | .push item => Evolve.Storable item
  | .extend items => ∀ item ∈ items, Evolve.Storable item
  | .pop => True

end Op

/-- Lists, with the last element at the top. -/
def listType (V : Type) : DataType (Op V) (SdkResult (Option V)) (List V) where
  answer op list :=
    match op with
    | .pop => .ok list.getLast?
    | _ => .ok none
  next op list :=
    match op with
    | .push item => list ++ [item]
    | .extend items => list ++ items
    | .pop => list.dropLast

omit [Encodable V] in
theorem answer_pop (last : V) : (listType V).answer .pop (list ++ [last]) = .ok (some last) :=
  congrArg Except.ok List.getLast?_concat

omit [Encodable V] in
theorem next_pop (last : V) : (listType V).next .pop (list ++ [last]) = list :=
  List.dropLast_concat

abbrev VectorStep (V : Type) := Step World (Op V) (SdkResult (Option V))

def Performs (vector : Vector V) (host : Host) (owner : AccountId) (step : VectorStep V) : Prop :=
  step.op.Storable ∧
    Performed host owner (step.op.program vector) step.before step.result step.after

/-- Whatever has happened has left the entries of the vector as they were. -/
structure SameEntries (vector : Vector V) (owner : AccountId) (w w' : World) : Prop where
  index : vector.index.read w'.storage owner () = vector.index.read w.storage owner ()
  elems : ∀ i, vector.elems.read w'.storage owner i = vector.elems.read w.storage owner i

structure Empty (vector : Vector V) (owner : AccountId) (w : World) : Prop where
  index : vector.index.read w.storage owner () = .ok none
  elems : ∀ i, vector.elems.read w.storage owner i = .ok none

theorem Empty.represents (h : vector.Empty owner w) : vector.Represents owner [] nothing w where
  small := Nat.two_pow_pos 64
  length := ⟨none, h.index, rfl⟩
  holds := h.elems

theorem Represents.of_sameEntries (h : vector.Represents owner list stale w)
    (hsame : vector.SameEntries owner w w') : vector.Represents owner list stale w' where
  small := h.small
  length := h.length.of_read hsame.index
  holds i := by rw [hsame.elems, h.holds]

/-- Fewer than 2^64 elements after the step. -/
def Small (step : VectorStep V) (list : List V) : Prop :=
  ((listType V).next step.op list).length < 2 ^ 64

/-- The length that is stored before the step, if the step is a `pop`. -/
def PopFinds (vector : Vector V) (owner : AccountId) (step : VectorStep V)
    (length : Option UInt64) : Prop :=
  step.op = .pop ∧ vector.index.read step.before.storage owner () = .ok length

theorem Represents.eq_nil (h : vector.Represents owner list stale w) {stored : Option UInt64}
    (hstored : vector.index.read w.storage owner () = .ok stored) (hzero : stored.getD 0 = 0) :
    list = [] := by
  obtain ⟨stored', hstored', hlength⟩ := h.length
  cases hstored.symm.trans hstored'
  have hnat := congrArg UInt64.toNat (hlength.symm.trans hzero)
  rw [toNat_ofNat h.small] at hnat
  exact List.eq_nil_of_length_eq_zero hnat

variable {step : VectorStep V}

theorem follows_of_not_pop (hperforms : vector.Performs host owner step) (hsmall : Small step list)
    (h : vector.Represents owner list stale step.before) (hop : step.op ≠ .pop) :
    (listType V).Follows (fun w list => vector.Represents owner list stale w) step list := by
  obtain ⟨before, op, result, after⟩ := step
  obtain ⟨hstorable, hperformed⟩ := hperforms
  cases op with
  | pop => exact absurd rfl hop
  | push item =>
    obtain ⟨_, rfl, rfl, hafter⟩ := hperformed.delivers
      (P := fun r w' => r = none ∧ vector.Represents owner (list ++ [item]) stale w') <| by
        rintro fuel frame rfl
        exact .bind ((delivers_push h hstorable hsmall).mono fun _ _ h => .pure ⟨rfl, h.1⟩)
    exact ⟨rfl, hafter⟩
  | extend items =>
    obtain ⟨_, rfl, rfl, hafter⟩ := hperformed.delivers
      (P := fun r w' => r = none ∧ vector.Represents owner (list ++ items) stale w') <| by
        rintro fuel frame rfl
        exact .bind ((delivers_extend h hstorable hsmall).mono fun _ _ h => .pure ⟨rfl, h⟩)
    exact ⟨rfl, hafter⟩

theorem follows_of_pop_absent (hperforms : vector.Performs host owner step)
    (h : vector.Represents owner list stale step.before) (hfinds : vector.PopFinds owner step none)
    :
    (listType V).Follows (fun w list => vector.Represents owner list stale w) step list := by
  obtain ⟨before, op, result, after⟩ := step
  obtain ⟨rfl, habsent⟩ := hfinds
  obtain ⟨-, hperformed⟩ := hperforms
  obtain rfl := h.eq_nil habsent rfl
  obtain ⟨_, rfl, rfl, hsame⟩ := hperformed.delivers
    (P := fun r w' => r = none ∧ before.SameStore w') <| by
      rintro fuel frame rfl
      exact delivers_pop_absent habsent
  exact ⟨rfl, h.of_sameStore hsame⟩

theorem pop_nonempty {last : V} (hperforms : vector.Performs host owner step)
    (h : vector.Represents owner (list ++ [last]) stale step.before) (hop : step.op = .pop) :
    step.result = .ok (some last) ∧ vector.Represents owner list
      (Function.update stale (UInt64.ofNat list.length) (.ok (some last))) step.after := by
  obtain ⟨before, op, result, after⟩ := step
  obtain rfl : op = .pop := hop
  obtain ⟨-, hperformed⟩ := hperforms
  obtain ⟨_, rfl, rfl, hafter⟩ := hperformed.delivers
    (P := fun r w' => r = some last ∧ vector.Represents owner list
      (Function.update stale (UInt64.ofNat list.length) (.ok (some last))) w') <| by
      rintro fuel frame rfl
      exact (delivers_pop h).mono fun _ _ h => ⟨h.1, h.2.1⟩
  exact ⟨rfl, hafter⟩

theorem follows_clean (hperforms : vector.Performs host owner step) (hsmall : Small step list)
    (h : vector.Represents owner list nothing step.before)
    (hpop : step.op = .pop → vector.PopFinds owner step none) :
    (listType V).Follows (fun w list => vector.Represents owner list nothing w) step list := by
  by_cases hop : step.op = .pop
  · exact follows_of_pop_absent hperforms h (hpop hop)
  · exact follows_of_not_pop hperforms hsmall h hop

/-- A `pop` that finds a stored length fails, or leaves the element that it returns. -/
theorem popFinds_none (hperforms : vector.Performs host owner step)
    (h : vector.Represents owner list nothing step.before)
    (hfollows : (listType V).Follows (fun w list => vector.NothingBeyond host owner w list)
      step list) (hop : step.op = .pop) : vector.PopFinds owner step none := by
  obtain ⟨stored, hstored, -⟩ := h.length
  cases stored with
  | none => exact ⟨hop, hstored⟩
  | some n =>
    exfalso
    obtain ⟨before, op, result, after⟩ := step
    obtain rfl : op = .pop := hop
    rcases List.eq_nil_or_concat list with rfl | ⟨init, last, rfl⟩
    · obtain rfl : result = .ok none := hfollows.answers
      obtain ⟨-, fuel, frame, rfl, -, hpopped⟩ := hperforms
      obtain ⟨value, hvalue⟩ := returns_pop_stored hstored _ _ hpopped
      rw [h.holds] at hvalue
      cases hvalue
    · rw [List.concat_eq_append] at h hfollows
      obtain ⟨-, hafter⟩ := pop_nonempty hperforms h rfl
      have hsmall := hafter.small
      have hbeyond := hfollows.shows
      rw [next_pop] at hbeyond
      have hread := hafter.holds (UInt64.ofNat init.length)
      rw [hbeyond.stored (toNat_ofNat hsmall).ge, toNat_ofNat hsmall,
        List.getElem?_eq_none le_rfl, Option.elim_none, Function.update_self] at hread
      cases hread

/-- In every run, with anything in between that leaves the entries alone: the vector is the list,
and nothing is found behind it, exactly if no `pop` finds a stored length.  As long as no `pop`
finds a stored zero, it is the list but for what is found behind it. -/
theorem refines_list {steps : List (VectorStep V)}
    (hrun : Runs (vector.Performs host owner) (vector.SameEntries owner) w steps)
    (hempty : vector.Empty owner w) (hsmall : (listType V).EveryStep Small [] steps) :
    ((listType V).EveryStep ((listType V).Follows fun w list =>
        vector.ReadsAs host owner w list ∧ vector.NothingBeyond host owner w list) [] steps ↔
      ∀ step ∈ steps, step.op = .pop → vector.PopFinds owner step none) ∧
    ((∀ step ∈ steps, ¬ vector.PopFinds owner step (some 0)) →
      (listType V).EveryStep ((listType V).Follows (vector.ReadsAs host owner)) [] steps) := by
  constructor
  · rw [← (listType V).everyStep_iff_forall]
    refine hrun.everyStep_iff (R := fun w list => vector.Represents owner list nothing w)
      hempty.represents hsmall (fun hgap h => h.of_sameEntries hgap) ?_
    intro step list hperforms hsmall h
    have hclean := follows_clean hperforms hsmall h
    refine ⟨⟨fun hfollows => popFinds_none hperforms h (hfollows.mono fun _ _ h => h.2), ?_⟩,
      fun hpop => (hclean hpop).shows⟩
    exact fun hpop => (hclean hpop).mono fun _ _ h => ⟨h.readsAs, h.nothingBeyond⟩
  · intro hzero
    rw [← (listType V).everyStep_iff_forall (m := [])] at hzero
    have hfollows := hrun.everyStep
      (R := fun w list => ∃ stale, vector.Represents owner list stale w)
      ⟨_, hempty.represents⟩ (hsmall.and hzero)
      (fun hgap ⟨stale, h⟩ => ⟨stale, h.of_sameEntries hgap⟩) ?_
    · exact hfollows.mono fun step list h => h.mono fun _ _ ⟨_, h⟩ => h.readsAs
    · rintro step list hperforms ⟨hsmall, hzero⟩ ⟨stale, h⟩
      by_cases hop : step.op = .pop
      · obtain ⟨before, op, result, after⟩ := step
        obtain rfl : op = .pop := hop
        rcases List.eq_nil_or_concat list with rfl | ⟨init, last, rfl⟩
        · obtain ⟨stored, hstored, hlength⟩ := h.length
          cases stored with
          | none =>
            exact (follows_of_pop_absent hperforms h ⟨rfl, hstored⟩).mono fun _ _ h => ⟨_, h⟩
          | some n =>
            obtain rfl : n = 0 := hlength
            exact absurd ⟨rfl, hstored⟩ hzero
        · rw [List.concat_eq_append] at h ⊢
          obtain ⟨hresult, hafter⟩ := pop_nonempty hperforms h rfl
          refine ⟨hresult.trans (answer_pop last).symm, ?_⟩
          rw [next_pop]
          exact ⟨_, hafter⟩
      · exact (follows_of_not_pop hperforms hsmall h hop).mono fun _ _ h => ⟨_, h⟩

/-! ### Runs of a vector of numbers -/

def numbers : Vector UInt64 := .new 1 2

def numbersFrame : Invoker := { Invoker.newForBeginBlock ⟨1, 0⟩ with whoami := .fromU64 10 }

def newWorld : World := ⟨.new fun _ => .ok none, .infinite, []⟩

def playNumbers : List (Op UInt64) → Option (List (VectorStep UInt64)) :=
  play (fun w op => tryPerform sampleHost 2 numbersFrame (op.program numbers) w) newWorld

theorem runs_of_playNumbers {ops : List (Op UInt64)} {steps : List (VectorStep UInt64)}
    (h : playNumbers ops = some steps) :
    Runs (numbers.Performs sampleHost (.fromU64 10)) (numbers.SameEntries (.fromU64 10)) newWorld
      steps := by
  refine runs_of_play (fun w => ⟨rfl, fun _ => rfl⟩) (fun {w op result after} hperform => ?_) h
  refine ⟨?_, performed_of_tryPerform hperform⟩
  cases op with
  | push item => exact storable_u64 item
  | extend items => exact fun item _ => storable_u64 item
  | pop => trivial

theorem empty_numbers : numbers.Empty (.fromU64 10) newWorld where
  index := Map.read_new _ _ (storable_unit ())
  elems i := Map.read_new _ _ (storable_u64 i)

instance (step : VectorStep UInt64) (list : List UInt64) : Decidable (Small step list) :=
  inferInstanceAs (Decidable (_ < _))

instance (step : VectorStep UInt64) (length : Option UInt64) :
    Decidable (numbers.PopFinds (.fromU64 10) step length) :=
  inferInstanceAs (Decidable (_ ∧ _))

theorem refines_list_numbers :
    ∃ steps, steps.map (fun step => (step.op, step.result)) =
        [(.push 5, .ok none), (.extend [6, 7], .ok none), (.pop, .ok (some 7))] ∧
      Runs (numbers.Performs sampleHost (.fromU64 10)) (numbers.SameEntries (.fromU64 10)) newWorld
        steps ∧
      (listType UInt64).EveryStep
        ((listType UInt64).Follows (numbers.ReadsAs sampleHost (.fromU64 10))) [] steps := by
  have hplayed : ∃ steps ∈ playNumbers [.push 5, .extend [6, 7], .pop],
      steps.map (fun step => (step.op, step.result)) =
        [(.push 5, .ok none), (.extend [6, 7], .ok none), (.pop, .ok (some 7))] ∧
      (listType UInt64).EveryStep Small [] steps ∧
      ∀ step ∈ steps, ¬ numbers.PopFinds (.fromU64 10) step (some 0) := by
    decide +kernel
  obtain ⟨steps, hplay, hresults, hsmall, hzero⟩ := hplayed
  have hrun := runs_of_playNumbers hplay
  exact ⟨steps, hresults, hrun, (refines_list hrun empty_numbers hsmall).2 hzero⟩

/-- The length zero that `extend` stores makes `pop` fail, and what `pop` returns is still found. -/
theorem numbers_not_list :
    (∃ steps, steps.map (fun step => (step.op, step.result)) =
        [(.extend [], .ok none), (.pop, .error errNotFound)] ∧
      Runs (numbers.Performs sampleHost (.fromU64 10)) (numbers.SameEntries (.fromU64 10)) newWorld
        steps) ∧
    ∃ steps, steps.map (fun step => (step.op, step.result)) =
        [(.push 5, .ok none), (.pop, .ok (some 5))] ∧
      Runs (numbers.Performs sampleHost (.fromU64 10)) (numbers.SameEntries (.fromU64 10)) newWorld
        steps ∧
      ∃ step ∈ steps.getLast?, Exec.Ends
        ((numbers.mayGet numbersFrame.env 0).lift.run (environment sampleHost 2 numbersFrame))
        (fun r _ => r = .ok (some 5)) step.after := by
  have hzero : ∃ steps ∈ playNumbers [.extend [], .pop],
      steps.map (fun step => (step.op, step.result)) =
        [(.extend [], .ok none), (.pop, .error errNotFound)] := by
    decide +kernel
  have hstale : ∃ steps ∈ playNumbers [.push 5, .pop],
      steps.map (fun step => (step.op, step.result)) =
        [(.push 5, .ok none), (.pop, .ok (some 5))] ∧
      ∃ step ∈ steps.getLast?, Exec.Ends
        ((numbers.mayGet numbersFrame.env 0).lift.run (environment sampleHost 2 numbersFrame))
        (fun r _ => r = .ok (some 5)) step.after := by
    decide +kernel
  obtain ⟨steps, hplay, hresults⟩ := hzero
  obtain ⟨steps', hplay', hresults', hfound⟩ := hstale
  exact ⟨⟨steps, hresults, runs_of_playNumbers hplay⟩,
    steps', hresults', runs_of_playNumbers hplay', hfound⟩

end Vector

end Evolve
