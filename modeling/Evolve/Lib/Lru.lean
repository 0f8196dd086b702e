import Mathlib
import Evolve.Lib.Lists

/-! Caches of a fixed capacity that give up the entry that was used least recently.  Which entry
that is plays no part here: a cache has nothing but what was put into it last. -/

/-- A library of caches.  `peek` is the value of a key, which `get` returns and marks as used. -/
class LruCrate where
  Cache : Type → Type → Type
  new {K V : Type} (capacity : Nat) : Cache K V
  peek {K V : Type} [DecidableEq K] : Cache K V → K → Option V
  get {K V : Type} [DecidableEq K] : Cache K V → K → Option V × Cache K V
  put {K V : Type} [DecidableEq K] : Cache K V → K → V → Cache K V
  peek_new {K V : Type} [DecidableEq K] (capacity : Nat) (k : K) :
    peek (new capacity : Cache K V) k = none
  get_fst {K V : Type} [DecidableEq K] (c : Cache K V) (k : K) : (get c k).1 = peek c k
  peek_get {K V : Type} [DecidableEq K] (c : Cache K V) (k k' : K) :
    peek (get c k).2 k' = peek c k'
  /-- What is found after an insertion is what was inserted or was there before. -/
  peek_put {K V : Type} [DecidableEq K] {c : Cache K V} {k k' : K} {v v' : V}
    (h : peek (put c k v) k' = some v') : k' = k ∧ v' = v ∨ k' ≠ k ∧ peek c k' = some v'

section

variable [LruCrate]

abbrev Lru (K V : Type) : Type := LruCrate.Cache K V

namespace Lru

variable {K V : Type}

abbrev new (capacity : Nat) : Lru K V := LruCrate.new capacity

variable [DecidableEq K]

abbrev peek (c : Lru K V) (k : K) : Option V := LruCrate.peek c k

abbrev get (c : Lru K V) (k : K) : Option V × Lru K V := LruCrate.get c k

abbrev put (c : Lru K V) (k : K) (v : V) : Lru K V := LruCrate.put c k v

theorem get_fst (c : Lru K V) (k : K) : (c.get k).1 = c.peek k := LruCrate.get_fst c k

theorem peek_putAll {α : Type} {key : α → K} {value : α → V} {items : List α} {c : Lru K V}
    {k : K} {v : V}
    (h : (items.foldl (fun c item => c.put (key item) (value item)) c).peek k = some v) :
    (∃ item ∈ items, k = key item ∧ v = value item) ∨
      ((∀ item ∈ items, k ≠ key item) ∧ c.peek k = some v) := by
  induction items generalizing c with
  | nil => exact .inr ⟨by simp, h⟩
  | cons item items ih =>
    rcases ih h with ⟨found, hmem, heq⟩ | ⟨hnone, hfound⟩
    · exact .inl ⟨found, List.mem_cons_of_mem _ hmem, heq⟩
    · rcases LruCrate.peek_put hfound with ⟨hk, hv⟩ | ⟨hk, hold⟩
      · exact .inl ⟨item, List.mem_cons_self .., hk, hv⟩
      · refine .inr ⟨fun other hmem => ?_, hold⟩
        rcases List.mem_cons.mp hmem with rfl | hmem
        · exact hk
        · exact hnone other hmem

/-! ### What holds of every entry -/

def Holds (c : Lru K V) (P : K → V → Prop) : Prop := ∀ k v, c.peek k = some v → P k v

theorem holds_new (capacity : Nat) (P : K → V → Prop) : (new capacity : Lru K V).Holds P := by
  intro k v h
  rw [peek, LruCrate.peek_new] at h
  cases h

namespace Holds

variable {c : Lru K V} {P Q : K → V → Prop}

theorem get (h : c.Holds P) (k : K) : (c.get k).2.Holds P := by
  intro k' v' hfound
  rw [peek, LruCrate.peek_get] at hfound
  exact h k' v' hfound

theorem put {k : K} {v : V} (h : c.Holds P) (hnew : Q k v)
    (hold : ∀ k' v', k' ≠ k → P k' v' → Q k' v') : (c.put k v).Holds Q := by
  intro k' v' hfound
  rcases LruCrate.peek_put hfound with ⟨rfl, rfl⟩ | ⟨hne, hfound⟩
  · exact hnew
  · exact hold k' v' hne (h k' v' hfound)

theorem putAll {α : Type} {key : α → K} {value : α → V} {items : List α} (h : c.Holds P)
    (hnew : ∀ item ∈ items, Q (key item) (value item))
    (hold : ∀ k v, (∀ item ∈ items, k ≠ key item) → P k v → Q k v) :
    (items.foldl (fun c item => c.put (key item) (value item)) c).Holds Q := by
  intro k v hfound
  rcases peek_putAll hfound with ⟨item, hmem, rfl, rfl⟩ | ⟨hnone, hfound⟩
  · exact hnew item hmem
  · exact hold k v hnone (h k v hfound)

end Holds

end Lru

end

/-! ### A list of entries -/

/-- The entries, the one that was used last first. -/
structure Recent (K V : Type) where
  entries : List (K × V)
  capacity : Nat

namespace Recent

variable {K V : Type} [DecidableEq K]

/-- A key that is used or put is the one that was used last. -/
def touch (c : Recent K V) (k : K) (v : V) : List (K × V) := (k, v) :: c.entries.filter (·.1 ≠ k)

theorem lookup_touch (c : Recent K V) (k k' : K) (v : V) :
    (c.touch k v).lookup k' = if k' = k then some v else c.entries.lookup k' := by
  unfold touch
  by_cases hk : k' = k
  · rw [if_pos hk, hk, List.lookup_cons_self]
  · rw [if_neg hk, Lists.lookup_cons_of_ne hk, Lists.lookup_filter_ne, if_neg hk]

end Recent

instance recentFirst : LruCrate where
  Cache := Recent
  new capacity := ⟨[], capacity⟩
  peek c k := c.entries.lookup k
  get c k := (c.entries.lookup k,
    match c.entries.lookup k with
    | some v => { c with entries := c.touch k v }
    | none => c)
  put c k v := { c with entries := (c.touch k v).take c.capacity }
  peek_new _ _ := rfl
  get_fst _ _ := rfl
  peek_get c k k' := by
    dsimp only
    split
    · rename_i v hv
      rw [Recent.lookup_touch]
      split
      · rename_i hk
        rw [hk, hv]
      · rfl
    · rfl
  peek_put h := by
    have hfound := Lists.lookup_of_lookup_take h
    rw [Recent.lookup_touch] at hfound
    split at hfound
    · rename_i hk
      exact .inl ⟨hk, (Option.some.inj hfound).symm⟩
    · rename_i hk
      exact .inr ⟨hk, hfound⟩
