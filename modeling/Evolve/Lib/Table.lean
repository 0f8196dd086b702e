import Mathlib

/-! Tables with a primary key, as a relational store keeps them: rows in the order in which they
were inserted, at most one for each key.  Inserting a row replaces the one that has its key. -/

namespace Relational

variable {Row Key : Type} [DecidableEq Key]

@[ext] structure Table (key : Row → Key) where
  rows : List Row
  unique : (rows.map key).Nodup

variable {p : Row → Bool}

namespace Table

variable {key : Row → Key}

def empty : Table key := ⟨[], List.nodup_nil⟩

def find (t : Table key) (k : Key) : Option Row := t.rows.find? fun row => key row = k

def delete (t : Table key) (p : Row → Bool) : Table key :=
  ⟨t.rows.filter (!p ·), t.unique.sublist (List.filter_sublist.map key)⟩

/-- Inserts a row in the place of the one with the same key. -/
def upsert (t : Table key) (row : Row) : Table key where
  rows := t.rows.filter (fun other => key other ≠ key row) ++ [row]
  unique := by
    rw [List.map_append, List.map_singleton, List.nodup_append]
    refine ⟨t.unique.sublist (List.filter_sublist.map key), List.nodup_singleton _, ?_⟩
    intro k hk k' hk'
    obtain ⟨other, hother, rfl⟩ := List.mem_map.mp hk
    rw [List.mem_singleton.mp hk']
    simpa using (List.mem_filter.mp hother).2

def upsertAll (t : Table key) (rows : List Row) : Table key := rows.foldl upsert t

/-! ### Rows -/

variable {t : Table key}

theorem find_eq_some_iff {k : Key} {row : Row} :
    t.find k = some row ↔ row ∈ t.rows ∧ key row = k := by
  constructor
  · intro h
    exact ⟨List.mem_of_find?_eq_some h, by simpa using List.find?_some h⟩
  · rintro ⟨hmem, hkey⟩
    obtain ⟨found, hfound⟩ : ∃ found, t.find k = some found :=
      Option.isSome_iff_exists.mp (List.find?_isSome.mpr ⟨row, hmem, by simpa using hkey⟩)
    have hfoundKey : key found = k := by simpa using List.find?_some hfound
    have hsame := List.inj_on_of_nodup_map t.unique (List.mem_of_find?_eq_some hfound) hmem
      (hfoundKey.trans hkey.symm)
    rw [hfound, hsame]

theorem find_congr {t' : Table key} {k : Key}
    (h : ∀ row, key row = k → (row ∈ t'.rows ↔ row ∈ t.rows)) : t'.find k = t.find k := by
  refine Option.ext fun row => ?_
  rw [find_eq_some_iff, find_eq_some_iff]
  constructor
  · rintro ⟨hmem, hkey⟩
    exact ⟨(h row hkey).mp hmem, hkey⟩
  · rintro ⟨hmem, hkey⟩
    exact ⟨(h row hkey).mpr hmem, hkey⟩

omit [DecidableEq Key] in
@[simp] theorem mem_delete {row : Row} :
    row ∈ (t.delete p).rows ↔ row ∈ t.rows ∧ p row = false := by
  simp [delete]

@[simp] theorem mem_upsert {row other : Row} :
    other ∈ (t.upsert row).rows ↔ (other ∈ t.rows ∧ key other ≠ key row) ∨ other = row := by
  simp [upsert]

theorem mem_upsertAll {rows : List Row} (hdistinct : (rows.map key).Nodup) {other : Row} :
    other ∈ (t.upsertAll rows).rows ↔
      (other ∈ t.rows ∧ key other ∉ rows.map key) ∨ other ∈ rows := by
  induction rows generalizing t with
  | nil => simp [upsertAll]
  | cons row rows ih =>
    obtain ⟨hnew, hdistinct⟩ := List.nodup_cons.mp hdistinct
    show other ∈ ((t.upsert row).upsertAll rows).rows ↔ _
    rw [ih hdistinct, mem_upsert, List.map_cons, List.mem_cons, List.mem_cons, not_or]
    constructor
    · rintro (⟨⟨hmem, hne⟩ | rfl, hrest⟩ | hmem)
      · exact .inl ⟨hmem, hne, hrest⟩
      · exact .inr (.inl rfl)
      · exact .inr (.inr hmem)
    · rintro (⟨hmem, hne, hrest⟩ | rfl | hmem)
      · exact .inl ⟨.inl ⟨hmem, hne⟩, hrest⟩
      · exact .inl ⟨.inr rfl, hnew⟩
      · exact .inr hmem

/-! ### Rows in order -/

theorem filter_upsertAll {rows : List Row} (hrows : ∀ row ∈ rows, p row = false)
    (hkeys : ∀ other ∈ t.rows, p other = true → key other ∉ rows.map key) :
    (t.upsertAll rows).rows.filter p = t.rows.filter p := by
  induction rows generalizing t with
  | nil => rfl
  | cons row rows ih =>
    have hother : ∀ other ∈ t.rows, p other = true → key other ≠ key row := by
      intro other hmem hp hsame
      exact hkeys other hmem hp (by simp [hsame])
    have hfirst : (t.upsert row).rows.filter p = t.rows.filter p := by
      unfold upsert
      rw [List.filter_append, List.filter_filter]
      have hrow : [row].filter p = [] := by simp [hrows row (List.mem_cons_self ..)]
      rw [hrow, List.append_nil]
      refine List.filter_congr fun other hmem => ?_
      cases hp : p other with
      | false => rfl
      | true => simpa using hother other hmem hp
    show ((t.upsert row).upsertAll rows).rows.filter p = _
    rw [ih (fun r hr => hrows r (List.mem_cons_of_mem _ hr)) ?_, hfirst]
    intro other hmem hp hin
    have hold : other ∈ t.rows.filter p := by
      rw [← hfirst]
      exact List.mem_filter.mpr ⟨hmem, hp⟩
    refine hkeys other (List.mem_filter.mp hold).1 hp ?_
    rw [List.map_cons]
    exact List.mem_cons_of_mem _ hin

/-- Where the rows that are inserted are the only ones of their kind, they are found in the order
in which they were inserted. -/
theorem filter_upsertAll_new {rows : List Row} (hdistinct : (rows.map key).Nodup)
    (hrows : ∀ row ∈ rows, p row = true) (hold : t.rows.filter p = []) :
    (t.upsertAll rows).rows.filter p = rows := by
  induction rows using List.reverseRecOn with
  | nil => exact hold
  | append_singleton rows row ih =>
    rw [List.map_append, List.nodup_append] at hdistinct
    have hnew : ∀ other ∈ rows, key other ≠ key row := by
      intro other hmem
      exact hdistinct.2.2 _ (List.mem_map_of_mem hmem) _ (by simp)
    have hrest := ih hdistinct.1 fun r hr => hrows r (List.mem_append_left _ hr)
    have hsplit : t.upsertAll (rows ++ [row]) = (t.upsertAll rows).upsert row := by
      simp [upsertAll]
    have hrow : [row].filter p = [row] := by simp [hrows row (by simp)]
    rw [hsplit]
    unfold upsert
    rw [List.filter_append, List.filter_comm, hrest, hrow]
    refine congrArg (· ++ [row]) (List.filter_eq_self.mpr fun other hmem => ?_)
    simpa using hnew other hmem

/-! ### Further unique columns -/

/-- Where the row with the same value in a unique column is deleted first, the column stays
unique. -/
theorem nodup_map_upsert {Column : Type} [DecidableEq Column] {column : Row → Column}
    (h : (t.rows.map column).Nodup) (row : Row) :
    (((t.delete fun other => column other = column row).upsert row).rows.map column).Nodup := by
  unfold upsert delete
  rw [List.map_append, List.map_singleton, List.nodup_append]
  refine ⟨h.sublist ((List.filter_sublist.trans List.filter_sublist).map _),
    List.nodup_singleton _, fun value hmem value' hmem' => ?_⟩
  obtain ⟨other, hother, rfl⟩ := List.mem_map.mp hmem
  rw [List.mem_singleton.mp hmem']
  simpa using (List.mem_filter.mp (List.mem_filter.mp hother).1).2

end Table

/-! ### Other representations of the rows -/

section

variable {Row' Key' : Type} [DecidableEq Key']

/-- Rows that are represented by others, and their keys by other keys. -/
structure Representation (key : Row → Key) (key' : Row' → Key') where
  row : Row → Row'
  ofKey : Key → Key'
  key_row : ∀ r, key' (row r) = ofKey (key r)
  injective : Function.Injective ofKey

variable {key : Row → Key} {key' : Row' → Key'} (rep : Representation key key')

omit [DecidableEq Key] [DecidableEq Key'] in
theorem Representation.map_key (rows : List Row) :
    (rows.map rep.row).map key' = (rows.map key).map rep.ofKey := by
  rw [List.map_map, List.map_map]
  exact List.map_congr_left fun row _ => rep.key_row row

namespace Table

def represent (t : Table key) : Table key' where
  rows := t.rows.map rep.row
  unique := by
    rw [rep.map_key]
    exact t.unique.map rep.injective

theorem find_represent (t : Table key) (k : Key) :
    (t.represent rep).find (rep.ofKey k) = (t.find k).map rep.row := by
  unfold find represent
  rw [List.find?_map]
  refine congrArg (Option.map rep.row) (List.find?_congr fun row _ => ?_)
  simp [rep.key_row, rep.injective.eq_iff]

omit [DecidableEq Key] [DecidableEq Key'] in
theorem delete_represent (t : Table key) {p' : Row' → Bool} (h : ∀ row, p' (rep.row row) = p row) :
    (t.represent rep).delete p' = (t.delete p).represent rep := by
  ext1
  simp [delete, represent, List.filter_map, Function.comp_def, h]

theorem upsert_represent (t : Table key) (row : Row) :
    (t.represent rep).upsert (rep.row row) = (t.upsert row).represent rep := by
  ext1
  simp [upsert, represent, List.filter_map, Function.comp_def, rep.key_row, rep.injective.eq_iff]

end Table

end

end Relational
