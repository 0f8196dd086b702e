import Mathlib
import Evolve.Lib.Concat
import Evolve.Lib.Sorting
import Evolve.Debugger.Trace

/-! What the hash of a snapshot is taken of: the keys in order, each followed by its value, with
nothing that says where one ends and the next begins. -/

namespace Evolve.Debugger.StateSnapshot

open Machine Sorting Concat Std

variable (s : StateSnapshot)

def sortedKeys : List Bytes := sortOn id (s.data.rows.map Prod.fst)

/-- The bytes that `StateSnapshot::hash` gives to the hasher. -/
def hashInput : Bytes :=
  s.sortedKeys.flatMap fun key =>
    match s.get key with
    | some value => key ++ value
    | none => []

def hash (sha256 : Bytes → FixedBytes 32) (s : StateSnapshot) : FixedBytes 32 :=
  sha256 s.hashInput

/-! ### Entries in order -/

def sortedEntries : List (Bytes × Bytes) := sortOn Prod.fst s.data.rows

def entryBytes (entry : Bytes × Bytes) : Bytes := entry.1 ++ entry.2

theorem mem_sortedEntries {s : StateSnapshot} {entry : Bytes × Bytes} :
    entry ∈ s.sortedEntries ↔ entry ∈ s.data.rows := (sortOn_perm _ _).mem_iff

theorem sortedEntries_increasing : Increasing Prod.fst s.sortedEntries :=
  sortOn_increasing s.data.unique

theorem sortedKeys_eq : s.sortedKeys = s.sortedEntries.map Prod.fst := by
  have hkeys : Increasing id (s.sortedEntries.map Prod.fst) :=
    List.pairwise_map.mpr s.sortedEntries_increasing
  rw [← hkeys.sortOn_eq]
  refine sortOn_eq_of_perm ?_ ((sortOn_perm _ _).map _).symm
  rw [List.map_id]
  exact s.data.unique

theorem hashInput_eq : s.hashInput = s.sortedEntries.flatMap entryBytes := by
  unfold hashInput
  rw [sortedKeys_eq, List.flatMap_map]
  refine List.flatMap_congr fun entry hentry => ?_
  rw [get_eq_some_iff.mpr (mem_sortedEntries.mp hentry)]
  rfl

theorem sameContents_iff {s t : StateSnapshot} :
    s.SameContents t ↔ s.sortedEntries = t.sortedEntries := by
  constructor
  · intro h
    have hmem (entry : Bytes × Bytes) : entry ∈ s.data.rows ↔ entry ∈ t.data.rows := by
      obtain ⟨key, value⟩ := entry
      rw [← get_eq_some_iff, ← get_eq_some_iff, h key]
    exact sortOn_eq_of_perm s.data.unique
      ((List.perm_ext_iff_of_nodup s.data.unique.of_map t.data.unique.of_map).mpr hmem)
  · intro h key
    refine Option.ext fun value => ?_
    rw [get_eq_some_iff, get_eq_some_iff, ← mem_sortedEntries, h, mem_sortedEntries]

/-! ### Lengths from which the entries can be read back -/

/-- All keys have a length in one set and all values one in another. -/
def LengthsIn (keys values : Set Nat) (s : StateSnapshot) : Prop :=
  ∀ entry ∈ s.data.rows, entry.1.length ∈ keys ∧ entry.2.length ∈ values

/-- No entry can be empty as a whole, and as soon as there can be keys that are not empty, these
have one length and the values one length, too. -/
structure Readable (keys values : Set Nat) : Prop where
  nonempty : ¬(0 ∈ keys ∧ 0 ∈ values)
  fixed : ∀ k ∈ keys, ∀ k' ∈ keys, ∀ v ∈ values, ∀ v' ∈ values, 0 < k → 0 < k' → k = k' ∧ v = v'

theorem split_emptyKey {l : List (Bytes × Bytes)} (h : Increasing Prod.fst l) :
    ∃ first rest, l = first ++ rest ∧ (first = [] ∨ ∃ value, first = [([], value)]) ∧
      ∀ entry ∈ rest, 0 < entry.1.length := by
  cases l with
  | nil => exact ⟨[], [], rfl, .inl rfl, by simp⟩
  | cons entry rest =>
    obtain ⟨hlt, -⟩ := List.pairwise_cons.mp h
    have hrest : ∀ later ∈ rest, 0 < later.1.length := by
      intro later hlater
      refine List.length_pos_of_ne_nil fun hempty => ?_
      have hlt := hlt later hlater
      rw [hempty] at hlt
      cases hkey : entry.1 with
      | nil => rw [hkey] at hlt; cases hlt
      | cons b bs => rw [hkey] at hlt; cases hlt
    obtain ⟨key, value⟩ := entry
    cases key with
    | nil => exact ⟨[([], value)], rest, rfl, .inr ⟨value, rfl⟩, hrest⟩
    | cons b bs =>
      refine ⟨[], ((b :: bs, value) :: rest), rfl, .inl rfl, ?_⟩
      intro entry hentry
      rcases List.mem_cons.mp hentry with rfl | hmem
      · simp
      · exact hrest entry hmem

theorem delimited_entryBytes (k v : Nat) :
    Delimited (fun entry => entry.1.length = k ∧ entry.2.length = v) entryBytes := by
  refine delimited_of_length (n := k + v) ?_ ?_
  · rintro entry ⟨hkey, hvalue⟩
    rw [entryBytes, List.length_append, hkey, hvalue]
  · rintro a b ⟨hkey, -⟩ ⟨hkey', -⟩ heq
    obtain ⟨hfst, hsnd⟩ := List.append_inj heq (hkey.trans hkey'.symm)
    exact Prod.ext hfst hsnd

theorem length_entryBytes {l : List (Bytes × Bytes)} {k v : Nat}
    (h : ∀ entry ∈ l, entry.1.length = k ∧ entry.2.length = v) :
    (l.flatMap entryBytes).length = l.length * (k + v) := by
  induction l with
  | nil => simp
  | cons entry l ih =>
    obtain ⟨hkey, hvalue⟩ := h entry (by simp)
    rw [List.flatMap_cons, List.length_append, ih fun entry hentry => h entry (by simp [hentry]),
      entryBytes, List.length_append, hkey, hvalue, List.length_cons, Nat.succ_mul, Nat.add_comm]

section Fixed

variable {k v : Nat} (hk : 0 < k) {l l' : List (Bytes × Bytes)}
  (hl : ∀ entry ∈ l, entry.1.length = k ∧ entry.2.length = v)
  (hl' : ∀ entry ∈ l', entry.1.length = k ∧ entry.2.length = v)
include hk hl hl'

theorem eq_of_fixedLengths (heq : l.flatMap entryBytes = l'.flatMap entryBytes) : l = l' := by
  refine (delimited_entryBytes k v).flatMap_inj ?_ hl hl' heq
  rintro entry ⟨hkey, -⟩ hnil
  rw [(List.append_eq_nil_iff.mp hnil).1] at hkey
  exact hk.ne hkey

/-- One value alone cannot make up for the length of whole entries. -/
theorem value_empty_of_fixedLengths {value : Bytes} (hvalue : value.length = v)
    (heq : l.flatMap entryBytes = value ++ l'.flatMap entryBytes) : value.length = 0 := by
  have hcount := congrArg List.length heq
  rw [List.length_append, length_entryBytes hl, length_entryBytes hl', hvalue] at hcount
  have hmod := congrArg (· % (k + v)) hcount
  rw [hvalue]
  simpa [Nat.mod_eq_of_lt (show v < k + v by omega), eq_comm] using hmod

end Fixed

/-- If the lengths allow it, the bytes of entries in order determine the entries. -/
theorem entries_eq {keys values : Set Nat} (h : Readable keys values)
    {l l' : List (Bytes × Bytes)} (hl : Increasing Prod.fst l) (hl' : Increasing Prod.fst l')
    (hin : ∀ entry ∈ l ++ l', entry.1.length ∈ keys ∧ entry.2.length ∈ values)
    (heq : l.flatMap entryBytes = l'.flatMap entryBytes) : l = l' := by
  obtain ⟨first, rest, rfl, hfirst, hrest⟩ := split_emptyKey hl
  obtain ⟨first', rest', rfl, hfirst', hrest'⟩ := split_emptyKey hl'
  -- An entry under the empty key would make an empty value possible.
  have hvalue (value : Bytes) (hmem : ([], value) ∈ (first ++ rest) ++ (first' ++ rest'))
      (hempty : value.length = 0) : False :=
    h.nonempty ⟨(hin _ hmem).1, hempty ▸ (hin _ hmem).2⟩
  cases hsome : rest ++ rest' with
  | nil =>
    obtain ⟨rfl, rfl⟩ := List.append_eq_nil_iff.mp hsome
    rcases hfirst with rfl | ⟨x, rfl⟩ <;> rcases hfirst' with rfl | ⟨y, rfl⟩
    · rfl
    · exact (hvalue y (by simp) (by simp_all [entryBytes])).elim
    · exact (hvalue x (by simp) (by simp_all [entryBytes])).elim
    · have hxy : x = y := by simpa [entryBytes] using heq
      rw [hxy]
  | cons p others =>
    have hp : p ∈ rest ++ rest' := by simp [hsome]
    have hlong : 0 < p.1.length := (List.mem_append.mp hp).elim (hrest p) (hrest' p)
    have hpin := hin p (by simp only [List.mem_append] at hp ⊢; tauto)
    -- All other lengths are those of this entry.
    have hkeys : ∀ entry ∈ rest ++ rest',
        entry.1.length = p.1.length ∧ entry.2.length = p.2.length := by
      intro entry hentry
      have hentryIn := hin entry (by simp only [List.mem_append] at hentry ⊢; tauto)
      exact h.fixed _ hentryIn.1 _ hpin.1 _ hentryIn.2 _ hpin.2
        ((List.mem_append.mp hentry).elim (hrest entry) (hrest' entry)) hlong
    have hvalues (value : Bytes)
        (hmem : ([], value) ∈ (first ++ rest) ++ (first' ++ rest')) :
        value.length = p.2.length :=
      (h.fixed _ hpin.1 _ hpin.1 _ (hin _ hmem).2 _ hpin.2 hlong hlong).2
    have hleft : ∀ entry ∈ rest, _ := fun entry hentry =>
      hkeys entry (List.mem_append_left _ hentry)
    have hright : ∀ entry ∈ rest', _ := fun entry hentry =>
      hkeys entry (List.mem_append_right _ hentry)
    rcases hfirst with rfl | ⟨x, rfl⟩ <;> rcases hfirst' with rfl | ⟨y, rfl⟩
    · rw [eq_of_fixedLengths hlong hleft hright heq]
    · exact (hvalue y (by simp) (value_empty_of_fixedLengths hlong hleft hright
        (hvalues y (by simp)) heq)).elim
    · exact (hvalue x (by simp) (value_empty_of_fixedLengths hlong hright hleft
        (hvalues x (by simp)) heq.symm)).elim
    · have hx := hvalues x (by simp)
      have hy := hvalues y (by simp)
      obtain ⟨hxy, hrests⟩ := List.append_inj heq (by simp [entryBytes, hx, hy])
      have hxy : x = y := by simpa [entryBytes] using hxy
      rw [hxy, eq_of_fixedLengths hlong hleft hright hrests]

/-! ### Collisions -/

/-- Two entries that read as a zero byte followed by ones. -/
def zeroAndOnes (k v k' v' : Nat) : StateSnapshot where
  data :=
    { rows := [(0 :: .replicate k 1, .replicate v 1), (1 :: .replicate k' 1, .replicate v' 1)]
      unique := by simp }
  height := 0
  timestampMs := 0

theorem hashInput_zeroAndOnes (k v k' v' : Nat) :
    (zeroAndOnes k v k' v').hashInput = 0 :: .replicate (k + v + (k' + v') + 1) 1 := by
  have hsorted : (zeroAndOnes k v k' v').sortedEntries =
      [(0 :: .replicate k 1, .replicate v 1), (1 :: .replicate k' 1, .replicate v' 1)] := by
    refine Increasing.sortOn_eq (List.pairwise_pair.mpr ?_)
    rfl
  have hbytes : (0 :: .replicate k 1 ++ .replicate v 1) ++
      (1 :: .replicate k' 1 ++ .replicate v' 1 ++ []) =
        (0 :: .replicate (k + v + (k' + v') + 1) 1 : Bytes) := by
    simp only [List.cons_append, List.append_nil, ← List.replicate_succ,
      List.replicate_append_replicate]
    congr 2
    omega
  rw [hashInput_eq, hsorted]
  exact hbytes

theorem zeroAndOnes_lengthsIn {keys values : Set Nat} {k v k' v' : Nat} (hk : k + 1 ∈ keys)
    (hv : v ∈ values) (hk' : k' + 1 ∈ keys) (hv' : v' ∈ values) :
    (zeroAndOnes k v k' v').LengthsIn keys values := by
  intro entry hentry
  have hentry : entry = (0 :: .replicate k 1, .replicate v 1) ∨
      entry = (1 :: .replicate k' 1, .replicate v' 1) := by simpa [zeroAndOnes] using hentry
  rcases hentry with rfl | rfl <;> simp [hk, hv, hk', hv']

theorem zeroAndOnes_sameContents {k v k' v' : Nat}
    (h : (zeroAndOnes k v k' v').SameContents (zeroAndOnes k' v' k v)) : k = k' ∧ v = v' := by
  have hkey := h (1 :: .replicate k' 1)
  have hvalue : (zeroAndOnes k v k' v').get (1 :: .replicate k' 1) = some (.replicate v' 1) :=
    get_eq_some_iff.mpr (by simp [zeroAndOnes])
  rw [hvalue, eq_comm, get_eq_some_iff] at hkey
  have hentry : k' = k ∧ v' = v := by simpa [zeroAndOnes, List.replicate_inj] using hkey
  exact ⟨hentry.1.symm, hentry.2.symm⟩

theorem hashInput_empty : empty.hashInput = [] := by
  have hsorted : empty.sortedEntries = [] := Increasing.sortOn_eq List.Pairwise.nil
  rw [hashInput_eq, hsorted]
  rfl

def singleton (key value : Bytes) : StateSnapshot where
  data := { rows := [(key, value)], unique := by simp }
  height := 0
  timestampMs := 0

theorem hashInput_singleton (key value : Bytes) :
    (singleton key value).hashInput = key ++ value := by
  have hsorted : (singleton key value).sortedEntries = [(key, value)] :=
    Increasing.sortOn_eq (List.pairwise_singleton _ _)
  rw [hashInput_eq, hsorted]
  exact List.append_nil _

/-- Equal contents give equal bytes in whatever order the map gives its entries.  That different
contents give different bytes is true of the snapshots with key and value lengths in two sets if
and only if the lengths leave no choice where an entry ends. -/
theorem hashInput_separates_iff (keys values : Set Nat) :
    (∀ s t : StateSnapshot, s.SameContents t → s.hashInput = t.hashInput) ∧
    ((∀ s t : StateSnapshot, s.LengthsIn keys values → t.LengthsIn keys values →
      ¬s.SameContents t → s.hashInput ≠ t.hashInput) ↔ Readable keys values) := by
  refine ⟨?_, fun h => ⟨?_, ?_⟩, ?_⟩
  · intro s t hsame
    rw [hashInput_eq, hashInput_eq, sameContents_iff.mp hsame]
  · rintro ⟨hkey, hvalue⟩
    refine h .empty (singleton [] []) (by simp [LengthsIn, empty, Relational.Table.empty])
      (by simp [LengthsIn, singleton, hkey, hvalue]) ?_ ?_
    · intro hsame
      cases hsame []
    · rw [hashInput_singleton, hashInput_empty]
      rfl
  · intro k hk k' hk' v hv v' hv' hpos hpos'
    obtain ⟨k, rfl⟩ := Nat.exists_eq_add_of_lt hpos
    obtain ⟨k', rfl⟩ := Nat.exists_eq_add_of_lt hpos'
    simp only [Nat.zero_add] at hk hk' ⊢
    by_contra hne
    refine h _ _ (zeroAndOnes_lengthsIn hk hv hk' hv') (zeroAndOnes_lengthsIn hk' hv' hk hv) ?_ ?_
    · intro hsame
      obtain ⟨rfl, rfl⟩ := zeroAndOnes_sameContents hsame
      exact hne ⟨rfl, rfl⟩
    · rw [hashInput_zeroAndOnes, hashInput_zeroAndOnes, Nat.add_comm (k + v)]
  · intro hreadable s t hs ht hdifferent heq
    refine hdifferent (sameContents_iff.mpr ?_)
    rw [hashInput_eq, hashInput_eq] at heq
    refine entries_eq hreadable s.sortedEntries_increasing t.sortedEntries_increasing ?_ heq
    intro entry hentry
    rcases List.mem_append.mp hentry with hmem | hmem
    · exact hs entry (mem_sortedEntries.mp hmem)
    · exact ht entry (mem_sortedEntries.mp hmem)

/-- The key `a` with the value `bc`, and the key `ab` with the value `c`. -/
theorem hashInput_singleton_shifted :
    (singleton [97] [98, 99]).hashInput = (singleton [97, 98] [99]).hashInput ∧
      (singleton [97] [98, 99]).get [97] = some [98, 99] ∧
      (singleton [97, 98] [99]).get [97] = none := by
  refine ⟨?_, rfl, rfl⟩
  rw [hashInput_singleton, hashInput_singleton]
  rfl

end Evolve.Debugger.StateSnapshot
