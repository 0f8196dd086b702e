import Mathlib
import Evolve.Stf.Atomicity
import Evolve.Stf.Snapshots

/-! Batches of operations against the same operations one by one.  The batch counts the keys that
are new to the overlay before it applies anything, so a key that occurs twice is counted twice. -/

namespace Evolve

open Machine Effects Std

namespace ExecutionState

/-! ### One by one -/

def performOne (op : BatchOperation) : InPlace Unit :=
  match op.operation with
  | .set value => setInPlace op.key value
  | .remove => removeInPlace op.key

def performAll (operations : List BatchOperation) : InPlace Unit := operations.forM performOne

def Succeeds (m : InPlace Unit) (s : ExecutionState) : Prop := ∃ s', m s = .done (.ok (), s')

/-- What a checkpoint brings back, apart from the metrics. -/
def restored (s : ExecutionState) (checkpoint : Checkpoint) : SdkResult ExecutionState :=
  (s.restore checkpoint).map fun s => { s with metrics := ⟨0, 0, 0, 0, 0, 0, 0⟩ }

/-- The batch succeeds exactly if the operations do, and then nothing but the metrics can tell which
of both has been done. -/
structure BatchAgrees (s : ExecutionState) (operations : List BatchOperation) : Prop where
  succeeds : Succeeds (applyBatch operations) s ↔ Succeeds (performAll operations) s
  same : ∀ s₁ s₂, applyBatch operations s = .done (.ok (), s₁) →
    performAll operations s = .done (.ok (), s₂) →
    s₂.lookup = s₁.lookup ∧ ∀ checkpoint, s₂.restored checkpoint = s₁.restored checkpoint

namespace BatchOperation

def entry (op : BatchOperation) : Option Message :=
  match op.operation with
  | .set value => some value
  | .remove => none

/-- What the undo log gets, depending on what the overlay had. -/
def change (op : BatchOperation) : Bool → Option (Option Message) → StateChange :=
  match op.operation with
  | .set _ => .set op.key
  | .remove => .remove op.key

/-- The key and the value are not too large. -/
def WithinLimits (op : BatchOperation) : Prop :=
  op.key.length ≤ maxKeySize ∧ ∀ value ∈ op.entry, value.length ≤ maxValueSize

end BatchOperation

/-- The keys of the operations that the overlay does not have, as often as they occur. -/
def newKeys (overlay : Overlay) (operations : List BatchOperation) : List Bytes :=
  (operations.map BatchOperation.key).filter fun key => !overlay.contains key

/-- The overlay has room for the new keys, each counted once. -/
def HasRoom (overlay : Overlay) (operations : List BatchOperation) : Prop :=
  newKeys overlay operations = [] ∨
    overlay.size + (newKeys overlay operations).toFinset.card ≤ maxOverlayEntries

/-! ### Counting keys -/

section

variable {overlay : Overlay} {op : BatchOperation} {operations : List BatchOperation}
  {entry : Option Message}

theorem newKeys_cons_of_mem (h : op.key ∈ overlay) :
    newKeys overlay (op :: operations) = newKeys overlay operations := by
  simp [newKeys, ExtTreeMap.contains_iff_mem.mpr h]

theorem newKeys_cons_of_not_mem (h : op.key ∉ overlay) :
    newKeys overlay (op :: operations) = op.key :: newKeys overlay operations := by
  have hcontains : overlay.contains op.key = false := by
    rwa [← Bool.not_eq_true, ExtTreeMap.contains_iff_mem]
  simp [newKeys, hcontains]

theorem newKeys_insert (key : Bytes) :
    newKeys (overlay.insert key entry) operations =
      (newKeys overlay operations).filter (· ≠ key) := by
  unfold newKeys
  rw [List.filter_filter]
  refine List.filter_congr fun k _ => ?_
  rw [ExtTreeMap.contains_insert]
  by_cases hk : k = key
  · simp [hk]
  · have hne : compare key k ≠ .eq := fun h => hk (LawfulEqCmp.eq_of_compare h).symm
    simp [hk, hne]

theorem not_mem_of_mem_newKeys {key : Bytes} (h : key ∈ newKeys overlay operations) :
    key ∉ overlay := by
  have hnew := (List.mem_filter.mp h).2
  rw [Bool.not_eq_true', ← Bool.not_eq_true, ExtTreeMap.contains_iff_mem] at hnew
  exact hnew

theorem hasRoom_cons_of_mem (h : op.key ∈ overlay) :
    HasRoom overlay (op :: operations) ↔ HasRoom (overlay.insert op.key entry) operations := by
  have hsame : newKeys (overlay.insert op.key entry) operations = newKeys overlay operations := by
    rw [newKeys_insert, List.filter_eq_self]
    intro key hkey
    exact decide_eq_true fun heq => not_mem_of_mem_newKeys hkey (heq ▸ h)
  rw [HasRoom, HasRoom, newKeys_cons_of_mem h, hsame, ExtTreeMap.size_insert,
    if_pos (ExtTreeMap.contains_iff_mem.mpr h)]

theorem hasRoom_cons_of_not_mem (h : op.key ∉ overlay) :
    HasRoom overlay (op :: operations) ↔
      overlay.size < maxOverlayEntries ∧ HasRoom (overlay.insert op.key entry) operations := by
  have hcard : (newKeys overlay (op :: operations)).toFinset.card =
      ((newKeys overlay operations).filter (· ≠ op.key)).toFinset.card + 1 := by
    have hinsert : (newKeys overlay (op :: operations)).toFinset =
        insert op.key ((newKeys overlay operations).filter (· ≠ op.key)).toFinset := by
      ext key
      simp only [newKeys_cons_of_not_mem h, List.mem_toFinset, List.mem_cons, Finset.mem_insert,
        List.mem_filter, decide_eq_true_eq]
      tauto
    rw [hinsert, Finset.card_insert_of_notMem (by simp)]
  rw [HasRoom, HasRoom, hcard, newKeys_insert, ExtTreeMap.size_insert,
    if_neg (mt ExtTreeMap.contains_iff_mem.mp h), newKeys_cons_of_not_mem h]
  constructor
  · rintro (hnil | hroom)
    · cases hnil
    · exact ⟨by omega, .inr (by omega)⟩
  · rintro ⟨hsize, hnil | hroom⟩
    · rw [hnil]
      exact .inr (by simpa using hsize)
    · exact .inr (by omega)

theorem validateBatch_eq_ok_iff {count total : Nat} :
    validateBatch overlay operations count = .ok total ↔
      (∀ op ∈ operations, op.WithinLimits) ∧
        total = count + (newKeys overlay operations).length := by
  induction operations generalizing count with
  | nil => simp [validateBatch, newKeys, eq_comm]
  | cons op operations ih =>
    have hcount : (if overlay.contains op.key then count else count + 1) +
        (newKeys overlay operations).length =
          count + (newKeys overlay (op :: operations)).length := by
      by_cases h : op.key ∈ overlay
      · rw [if_pos (ExtTreeMap.contains_iff_mem.mpr h), newKeys_cons_of_mem h]
      · rw [if_neg (mt ExtTreeMap.contains_iff_mem.mp h), newKeys_cons_of_not_mem h]
        simp
        omega
    rw [List.forall_mem_cons, ← hcount, validateBatch]
    obtain ⟨key, operation⟩ := op
    by_cases hkey : key.length > maxKeySize
    · simp [BatchOperation.WithinLimits, hkey, Nat.not_le.mpr hkey]
    cases operation with
    | set value =>
      by_cases hvalue : value.length > maxValueSize
      · simp [BatchOperation.WithinLimits, BatchOperation.entry, hkey, hvalue,
          Nat.not_le.mpr hvalue]
      · simp [BatchOperation.WithinLimits, BatchOperation.entry, hkey, hvalue, ih,
          Nat.not_lt.mp hkey, Nat.not_lt.mp hvalue]
    | remove =>
      simp [BatchOperation.WithinLimits, BatchOperation.entry, hkey, ih, Nat.not_lt.mp hkey]

end

/-! ### Applying -/

/-- The state that an operation leads to. -/
def performed (s : ExecutionState) (op : BatchOperation) : ExecutionState :=
  s.record op.key op.entry (op.change s.overlay[op.key]?.isSome s.overlay[op.key]?)

variable {s t s' s₁ s₂ : ExecutionState}

theorem inPlace_eq_ok_iff {f : ExecutionState → SdkResult ExecutionState} :
    inPlace f s = .done (.ok (), s') ↔ f s = .ok s' := by
  unfold inPlace
  cases f s <;> simp

theorem write_eq_ok_iff {key : Bytes} {entry : Option Message}
    {change : Bytes → Bool → Option (Option Message) → StateChange} :
    s.write key entry change = .ok s' ↔
      (key ∉ s.overlay → s.overlay.size < maxOverlayEntries) ∧
        s' = s.record key entry (change key s.overlay[key]?.isSome s.overlay[key]?) := by
  constructor
  · intro h
    obtain ⟨rfl, hroom⟩ := write_ok h
    exact ⟨fun hmem => hroom (ExtTreeMap.getElem?_eq_none hmem), rfl⟩
  · rintro ⟨hroom, rfl⟩
    unfold write
    cases hprevious : s.overlay[key]? with
    | some previous => rfl
    | none =>
      have hnew : key ∉ s.overlay := by
        rw [ExtTreeMap.mem_iff_isSome_getElem?, hprevious]
        nofun
      exact if_neg (Nat.not_le.mpr (hroom hnew))

theorem performOne_eq_ok_iff {op : BatchOperation} :
    performOne op s = .done (.ok (), s') ↔
      op.WithinLimits ∧ (op.key ∉ s.overlay → s.overlay.size < maxOverlayEntries) ∧
        s' = s.performed op := by
  obtain ⟨key, operation⟩ := op
  cases operation with
  | set value =>
    show setInPlace key value s = _ ↔ _
    rw [setInPlace_eq, inPlace_eq_ok_iff, set]
    simp only [BatchOperation.WithinLimits, BatchOperation.entry, Option.mem_def,
      Option.some.injEq, forall_eq']
    split
    · rename_i hkey
      simp [Nat.not_le.mpr hkey]
    · rename_i hkey
      split
      · rename_i hvalue
        simp [Nat.not_le.mpr hvalue]
      · rename_i hvalue
        rw [write_eq_ok_iff]
        exact (and_iff_right ⟨Nat.not_lt.mp hkey, Nat.not_lt.mp hvalue⟩).symm
  | remove =>
    show removeInPlace key s = _ ↔ _
    rw [removeInPlace_eq, inPlace_eq_ok_iff, remove]
    split
    · rename_i hkey
      simp [BatchOperation.WithinLimits, Nat.not_le.mpr hkey]
    · rename_i hkey
      rw [write_eq_ok_iff]
      exact (and_iff_right ⟨Nat.not_lt.mp hkey, nofun⟩).symm

theorem SameExceptMetrics.performed (h : s.SameExceptMetrics t) (op : BatchOperation) :
    (s.performed op).SameExceptMetrics (t.performed op) := by
  unfold ExecutionState.performed
  rw [h.overlay]
  refine ⟨h.base, ?_, ?_, h.events, h.uniqueObjects⟩
  · exact congrArg (ExtTreeMap.insert · op.key op.entry) h.overlay
  · exact congrArg (_ :: ·) h.undoLog

theorem applyOperation_apply (op : BatchOperation) (s : ExecutionState) :
    ∃ s', applyOperation op s = .done (.ok (), s') ∧ (s.performed op).SameExceptMetrics s' := by
  obtain ⟨key, operation⟩ := op
  cases operation with
  | set value => exact ⟨_, rfl, rfl, rfl, rfl, rfl, rfl⟩
  | remove => exact ⟨_, rfl, rfl, rfl, rfl, rfl, rfl⟩

theorem performAll_cons {op : BatchOperation} {operations : List BatchOperation} :
    performAll (op :: operations) s = .done (.ok (), s') ↔
      ∃ s₁, performOne op s = .done (.ok (), s₁) ∧
        performAll operations s₁ = .done (.ok (), s') := by
  show (performOne op >>= fun _ => performAll operations) s = _ ↔ _
  rw [Exec.bind_done]
  constructor
  · rintro (⟨_, s₁, hop, hrest⟩ | ⟨_, _, ⟨⟩⟩)
    exact ⟨s₁, hop, hrest⟩
  · rintro ⟨s₁, hop, hrest⟩
    exact .inl ⟨(), s₁, hop, hrest⟩

theorem succeeds_performAll_iff {operations : List BatchOperation} :
    Succeeds (performAll operations) s ↔
      (∀ op ∈ operations, op.WithinLimits) ∧ HasRoom s.overlay operations := by
  induction operations generalizing s with
  | nil => exact iff_of_true ⟨s, rfl⟩ ⟨by simp, .inl rfl⟩
  | cons op operations ih =>
    have hstep : Succeeds (performAll (op :: operations)) s ↔
        op.WithinLimits ∧ (op.key ∉ s.overlay → s.overlay.size < maxOverlayEntries) ∧
          Succeeds (performAll operations) (s.performed op) := by
      simp only [Succeeds, performAll_cons, performOne_eq_ok_iff]
      constructor
      · rintro ⟨s', _, ⟨hlimits, hroom, rfl⟩, hrest⟩
        exact ⟨hlimits, hroom, s', hrest⟩
      · rintro ⟨hlimits, hroom, s', hrest⟩
        exact ⟨s', _, ⟨hlimits, hroom, rfl⟩, hrest⟩
    have hroom : HasRoom s.overlay (op :: operations) ↔
        (op.key ∉ s.overlay → s.overlay.size < maxOverlayEntries) ∧
          HasRoom (s.performed op).overlay operations := by
      by_cases h : op.key ∈ s.overlay
      · rw [hasRoom_cons_of_mem h]
        exact (and_iff_right fun hnot => absurd h hnot).symm
      · rw [hasRoom_cons_of_not_mem h]
        exact and_congr_left fun _ => ⟨fun hsize _ => hsize, fun hsize => hsize h⟩
    rw [hstep, ih, List.forall_mem_cons, hroom]
    tauto

theorem applyBatch_eq_ok_iff {operations : List BatchOperation} :
    applyBatch operations s = .done (.ok (), s') ↔
      (∀ op ∈ operations, op.WithinLimits) ∧
        s.overlay.size + (newKeys s.overlay operations).length ≤ maxOverlayEntries ∧
        (do
          operations.forM applyOperation
          updateUndoLogMax
          updateOverlayMax : InPlace Unit) s = .done (.ok (), s') := by
  show (Exec.ofExcept (validateBatch s.overlay operations 0) >>= _) s = _ ↔ _
  rw [Exec.bind_done]
  constructor
  · rintro (⟨count, s₁, hvalid, hrest⟩ | ⟨_, _, ⟨⟩⟩)
    obtain ⟨hcount, rfl⟩ := Prod.mk.inj (Outcome.done.inj hvalid)
    obtain ⟨hlimits, rfl⟩ := validateBatch_eq_ok_iff.mp hcount
    rw [Nat.zero_add] at hrest
    split at hrest
    · cases hrest
    · rename_i hroom
      exact ⟨hlimits, Nat.not_lt.mp hroom, hrest⟩
  · rintro ⟨hlimits, hroom, hrest⟩
    have hvalid : validateBatch s.overlay operations 0 = .ok _ :=
      validateBatch_eq_ok_iff.mpr ⟨hlimits, (Nat.zero_add _).symm⟩
    refine .inl ⟨_, s, congrArg (fun r => Outcome.done (r, s)) hvalid, ?_⟩
    exact (congrFun (if_neg (Nat.not_lt.mpr hroom)) s).trans hrest

/-- Nothing but the metrics tells apart what both passes leave. -/
theorem forM_applyOperation_alike {operations : List BatchOperation} (hst : s.SameExceptMetrics t)
    (hperform : performAll operations s = .done (.ok (), s₁))
    (happly : operations.forM applyOperation t = .done (.ok (), s₂)) : s₁.SameExceptMetrics s₂ := by
  induction operations generalizing s t with
  | nil =>
    cases hperform
    cases happly
    exact hst
  | cons op operations ih =>
    obtain ⟨_, hop, hperform⟩ := performAll_cons.mp hperform
    obtain ⟨-, -, rfl⟩ := performOne_eq_ok_iff.mp hop
    obtain ⟨t', hop', hsame⟩ := applyOperation_apply op t
    replace happly : (applyOperation op >>= fun _ => operations.forM applyOperation) t =
      .done (.ok (), s₂) := happly
    rw [Exec.bind_apply, hop'] at happly
    refine ih (ExecutionState.SameExceptMetrics.trans ?_ hsame) hperform happly
    exact hst.performed op

theorem restored_eq (h : s.SameExceptMetrics t) (checkpoint : Checkpoint) :
    t.restored checkpoint = s.restored checkpoint := by
  unfold restored restore
  rw [h.undoLog, h.events, h.overlay]
  split
  · rfl
  · simp only [Except.map, h.base]

theorem succeeds_applyBatch_iff {operations : List BatchOperation} :
    Succeeds (applyBatch operations) s ↔
      (∀ op ∈ operations, op.WithinLimits) ∧
        s.overlay.size + (newKeys s.overlay operations).length ≤ maxOverlayEntries := by
  simp only [Succeeds, applyBatch_eq_ok_iff]
  constructor
  · rintro ⟨s', hlimits, hroom, -⟩
    exact ⟨hlimits, hroom⟩
  · rintro ⟨hlimits, hroom⟩
    obtain ⟨s₁, happly, -⟩ := applyOperations_extends operations s
    have hmetrics : (updateUndoLogMax >>= fun _ => updateOverlayMax) s₁ = .done (.ok (), _) := rfl
    refine ⟨_, hlimits, hroom, Eq.trans ?_ hmetrics⟩
    rw [Exec.bind_apply, happly]

theorem batch_same {operations : List BatchOperation}
    (hbatch : applyBatch operations s = .done (.ok (), s₁))
    (hperform : performAll operations s = .done (.ok (), s₂)) : s₂.SameExceptMetrics s₁ := by
  obtain ⟨-, -, happly⟩ := applyBatch_eq_ok_iff.mp hbatch
  obtain ⟨_, t, hforM, hmetrics⟩ | ⟨_, _, ⟨⟩⟩ := Exec.bind_done.mp happly
  cases hmetrics
  have hsame := forM_applyOperation_alike (.refl s) hperform hforM
  exact ⟨hsame.base, hsame.overlay, hsame.undoLog, hsame.events, hsame.uniqueObjects⟩

/-- For every execution state and list of operations: the batch agrees with performing them one by
one if and only if an overlay that has room for the new keys, each counted once, also has room for
them counted as often as they occur, or an operation is too large. -/
theorem batchAgrees_iff (s : ExecutionState) (operations : List BatchOperation) :
    BatchAgrees s operations ↔
      ((∀ op ∈ operations, op.WithinLimits) → HasRoom s.overlay operations →
        s.overlay.size + (newKeys s.overlay operations).length ≤ maxOverlayEntries) := by
  constructor
  · intro h hlimits hroom
    exact (succeeds_applyBatch_iff.mp (h.succeeds.mpr
      (succeeds_performAll_iff.mpr ⟨hlimits, hroom⟩))).2
  · intro h
    refine ⟨?_, fun s₁ s₂ hbatch hperform => ?_⟩
    · rw [succeeds_applyBatch_iff, succeeds_performAll_iff]
      refine and_congr_right fun hlimits => ⟨fun hroom => .inr ?_, h hlimits⟩
      have hcard := List.toFinset_card_le (newKeys s.overlay operations)
      omega
    · have hsame := batch_same hbatch hperform
      exact ⟨hsame.lookup.symm, fun checkpoint => (restored_eq hsame checkpoint).symm⟩

/-! ### An overlay that is almost full -/

def filled : Nat → Overlay
  | 0 => ∅
  | n + 1 => (filled n).insert (leBytes 4 n) (some [])

theorem mem_filled {n : Nat} {key : Bytes} : key ∈ filled n ↔ ∃ i < n, leBytes 4 i = key := by
  induction n with
  | zero => simp [filled]
  | succ n ih =>
    rw [filled, ExtTreeMap.mem_insert, ih, LawfulEqCmp.compare_eq_iff_eq]
    constructor
    · rintro (rfl | ⟨i, hi, rfl⟩)
      · exact ⟨n, Nat.lt_succ_self n, rfl⟩
      · exact ⟨i, Nat.lt_succ_of_lt hi, rfl⟩
    · rintro ⟨i, hi, rfl⟩
      rcases Nat.lt_succ_iff_lt_or_eq.mp hi with hi | rfl
      · exact .inr ⟨i, hi, rfl⟩
      · exact .inl rfl

theorem size_filled {n : Nat} (h : n ≤ 256 ^ 4) : (filled n).size = n := by
  induction n with
  | zero => rfl
  | succ n ih =>
    have hnew : leBytes 4 n ∉ filled n := by
      rw [mem_filled]
      rintro ⟨i, hi, heq⟩
      have hnat := congrArg leNat heq
      rw [leNat_leBytes, leNat_leBytes, Nat.mod_eq_of_lt (by omega), Nat.mod_eq_of_lt (by omega)]
        at hnat
      omega
    rw [filled, ExtTreeMap.size_insert, if_neg (mt ExtTreeMap.contains_iff_mem.mp hnew),
      ih (by omega)]

/-- One entry is free. -/
def almostFull : ExecutionState :=
  { ExecutionState.new (fun _ => .ok none) with overlay := filled 99999 }

def twice : List BatchOperation := [⟨[7], .set [1]⟩, ⟨[7], .set [2]⟩]

theorem newKeys_twice {overlay : Overlay} (h : [7] ∉ overlay) :
    newKeys overlay twice = [[7], [7]] := by
  rw [twice, newKeys_cons_of_not_mem, newKeys_cons_of_not_mem]
  · rfl
  · exact h
  · exact h

/-- Setting one new key twice fits into the last free entry, but not as a batch. -/
theorem batch_refuses_repeated_key :
    almostFull.overlay.size = 99999 ∧ Succeeds (performAll twice) almostFull ∧
      ¬ Succeeds (applyBatch twice) almostFull ∧ ¬ BatchAgrees almostFull twice := by
  have hsize : almostFull.overlay.size = 99999 :=
    @size_filled 99999 (by norm_num)
  have hnew : ([7] : Bytes) ∉ almostFull.overlay := by
    refine mt mem_filled.mp ?_
    rintro ⟨i, -, heq⟩
    simpa using congrArg List.length heq
  have hkeys : newKeys almostFull.overlay twice = [[7], [7]] := newKeys_twice hnew
  have hlimits : ∀ op ∈ twice, op.WithinLimits := by
    simp [twice, BatchOperation.WithinLimits, BatchOperation.entry, maxKeySize, maxValueSize,
      maxStorageKeySize]
  have hperform : Succeeds (performAll twice) almostFull := by
    refine succeeds_performAll_iff.mpr ⟨hlimits, .inr ?_⟩
    rw [hkeys, hsize]
    simp [maxOverlayEntries]
  have hbatch : ¬ Succeeds (applyBatch twice) almostFull := by
    rw [succeeds_applyBatch_iff, hkeys, hsize]
    simp [maxOverlayEntries]
  exact ⟨hsize, hperform, hbatch, fun h => hbatch (h.succeeds.mpr hperform)⟩

end ExecutionState

end Evolve
