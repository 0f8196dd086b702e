import Mathlib
import Evolve.Core
import Evolve.Lib.Effects
import Evolve.Lib.Heap

/-! The transaction pool.  Removal leaves stale entries in the priority queue, and transactions that
were proposed stay in flight until a block is finalized. -/

namespace Evolve

open Machine Borsh Effects

abbrev TxId := FixedBytes 32

def maxSenderKeyLen : Nat := 64

structure SenderKey where
  bytes : Bytes
  bounded : bytes.length ≤ maxSenderKeyLen
deriving DecidableEq

def SenderKey.new (bytes : Bytes) : Option SenderKey :=
  if h : bytes.length ≤ maxSenderKeyLen then some ⟨bytes, h⟩ else none

theorem SenderKey.length_le_of_new {bytes : Bytes} {key : SenderKey}
    (h : SenderKey.new bytes = some key) : bytes.length ≤ maxSenderKeyLen := by
  unfold SenderKey.new at h
  split at h
  · assumption
  · cases h

class MempoolTx (Tx : Type) (OrderingKey : outParam Type) where
  txId : Tx → TxId
  orderingKey : Tx → OrderingKey
  senderKey : Tx → Option SenderKey := fun _ => none
  gasLimit : Tx → UInt64

structure GasPriceOrdering where
  gasPrice : U128
  nonce : UInt64

/-- A higher gas price comes first, and with equal prices a lower nonce. -/
instance : LinearOrder GasPriceOrdering :=
  LinearOrder.lift'
    (fun key => toLex (key.gasPrice.toNat, OrderDual.toDual key.nonce.toNat))
    (by
      rintro ⟨price, nonce⟩ ⟨price', nonce'⟩ h
      obtain ⟨hprice, hnonce⟩ := Prod.mk.inj (toLex.injective h)
      have hprice : price = price' := BitVec.eq_of_toNat_eq hprice
      have hnonce : nonce = nonce' := UInt64.toNat_inj.mp hnonce
      rw [hprice, hnonce])

structure OrderedEntry (OrderingKey : Type) where
  hash : TxId
  key : OrderingKey

/-- The pool.  The priority queue is the list of its entries, in any order; `bySender` lists the
hashes of a sender by their sequence numbers. -/
structure Mempool (Tx OrderingKey : Type) where
  byHash : TxId → Option Tx
  byPriority : List (OrderedEntry OrderingKey)
  bySender : SenderKey → Option (List (UInt64 × TxId))
  bySenderSeq : SenderKey → Option UInt64
  inFlight : List TxId

inductive MempoolError where
  | alreadyExists

namespace Mempool

variable {Tx OrderingKey : Type} [MempoolTx Tx OrderingKey]

def new : Mempool Tx OrderingKey := ⟨fun _ => none, [], fun _ => none, fun _ => none, []⟩

variable (pool : Mempool Tx OrderingKey)

def contains (hash : TxId) : Bool := (pool.byHash hash).isSome

/-! ### Adding -/

def push (hash : TxId) (tx : Tx) : Mempool Tx OrderingKey :=
  { pool with byPriority := ⟨hash, MempoolTx.orderingKey tx⟩ :: pool.byPriority }

def nextSenderSequence (sender : SenderKey) : UInt64 :=
  (pool.bySenderSeq sender).getD 0

/-- Inserts into the hashes of a sender, which are in the order of their sequence numbers. -/
def insertSequence (sequence : UInt64) (hash : TxId) : List (UInt64 × TxId) → List (UInt64 × TxId)
  | [] => [(sequence, hash)]
  | entry :: entries =>
    if sequence < entry.1 then (sequence, hash) :: entry :: entries
    else if sequence = entry.1 then (sequence, hash) :: entries
    else entry :: insertSequence sequence hash entries

def track (sender : SenderKey) (hash : TxId) : Mempool Tx OrderingKey :=
  let sequence := pool.nextSenderSequence sender
  { pool with
    bySender := Function.update pool.bySender sender
      (some (insertSequence sequence hash ((pool.bySender sender).getD [])))
    bySenderSeq := Function.update pool.bySenderSeq sender (some (sequence + 1)) }

def insert (tx : Tx) : Mempool Tx OrderingKey :=
  let txId := MempoolTx.txId tx
  let pool := { pool with byHash := Function.update pool.byHash txId (some tx) }
  let pool := pool.push txId tx
  match MempoolTx.senderKey tx with
  | none => pool
  | some sender => pool.track sender txId

def sequenceOverflows (tx : Tx) : Bool :=
  match MempoolTx.senderKey tx with
  | none => false
  | some sender => pool.nextSenderSequence sender = u64Max

def add (tx : Tx) : Exec (Mempool Tx OrderingKey) MempoolError TxId := fun pool =>
  if pool.contains (MempoolTx.txId tx) then .done (.error .alreadyExists, pool)
  else if pool.sequenceOverflows tx then .panic
  else .done (.ok (MempoolTx.txId tx), pool.insert tx)

/-! ### Removing -/

/-- Takes a hash out of the sender index.  A sender without transactions is forgotten with its
sequence number. -/
def untrack (sender : SenderKey) (hash : TxId) : Mempool Tx OrderingKey :=
  match pool.bySender sender with
  | none => pool
  | some nonces =>
    let nonces := nonces.filter fun entry => entry.2 ≠ hash
    if nonces.isEmpty then
      { pool with
        bySender := Function.update pool.bySender sender none
        bySenderSeq := Function.update pool.bySenderSeq sender none }
    else { pool with bySender := Function.update pool.bySender sender (some nonces) }

/-- The removed transaction, if there was one, and the pool without it.  Its entry stays in the
priority queue. -/
def remove (hash : TxId) : Option Tx × Mempool Tx OrderingKey :=
  match pool.byHash hash with
  | none => (none, pool)
  | some tx =>
    let pool := { pool with byHash := Function.update pool.byHash hash none }
    match MempoolTx.senderKey tx with
    | none => (some tx, pool)
    | some sender => (some tx, pool.untrack sender hash)

def removeMany (hashes : List TxId) : Mempool Tx OrderingKey :=
  hashes.foldl (fun pool hash => (pool.remove hash).2) pool

def requeue (hash : TxId) : Mempool Tx OrderingKey :=
  match pool.byHash hash with
  | none => pool
  | some tx => pool.push hash tx

def finalize (executed : List TxId) : Mempool Tx OrderingKey :=
  let pool := pool.removeMany executed
  let returned := pool.inFlight.filter fun hash => hash ∉ executed
  returned.foldl requeue { pool with inFlight := [] }

def clear (_ : Mempool Tx OrderingKey) : Mempool Tx OrderingKey := new

/-! ### What is in the pool -/

omit [MempoolTx Tx OrderingKey] in
theorem byHash_untrack (sender : SenderKey) (hash : TxId) :
    (pool.untrack sender hash).byHash = pool.byHash := by
  unfold untrack
  split
  · rfl
  · dsimp only
    split <;> rfl

theorem byHash_remove (hash : TxId) :
    (pool.remove hash).2.byHash = Function.update pool.byHash hash none := by
  unfold remove
  split
  · rename_i habsent
    rw [← habsent, Function.update_eq_self]
  · split
    · rfl
    · exact byHash_untrack _ _ _

theorem byHash_removeMany (hashes : List TxId) (hash : TxId) :
    (pool.removeMany hashes).byHash hash = if hash ∈ hashes then none else pool.byHash hash := by
  induction hashes generalizing pool with
  | nil => simp [removeMany]
  | cons first hashes ih =>
    rw [removeMany, List.foldl_cons, ← removeMany, ih, byHash_remove]
    by_cases hfirst : hash = first
    · simp [hfirst]
    · simp [hfirst]

omit [MempoolTx Tx OrderingKey] in
theorem untrack_entries (sender : SenderKey) (hash : TxId) :
    (pool.untrack sender hash).byPriority = pool.byPriority ∧
      (pool.untrack sender hash).inFlight = pool.inFlight := by
  unfold untrack
  split
  · exact ⟨rfl, rfl⟩
  · dsimp only
    split <;> exact ⟨rfl, rfl⟩

theorem remove_entries (hash : TxId) :
    (pool.remove hash).2.byPriority = pool.byPriority ∧
      (pool.remove hash).2.inFlight = pool.inFlight := by
  unfold remove
  split
  · exact ⟨rfl, rfl⟩
  · split
    · exact ⟨rfl, rfl⟩
    · exact untrack_entries _ _ _

theorem removeMany_entries (hashes : List TxId) :
    (pool.removeMany hashes).byPriority = pool.byPriority ∧
      (pool.removeMany hashes).inFlight = pool.inFlight := by
  induction hashes generalizing pool with
  | nil => exact ⟨rfl, rfl⟩
  | cons first hashes ih =>
    obtain ⟨hentries, hflight⟩ := ih (pool.remove first).2
    obtain ⟨hfirst, hfirst'⟩ := pool.remove_entries first
    exact ⟨hentries.trans hfirst, hflight.trans hfirst'⟩

theorem byHash_requeue (hash : TxId) : (pool.requeue hash).byHash = pool.byHash := by
  unfold requeue
  split <;> rfl

theorem byHash_foldl_requeue (hashes : List TxId) (pool : Mempool Tx OrderingKey) :
    (hashes.foldl requeue pool).byHash = pool.byHash := by
  induction hashes generalizing pool with
  | nil => rfl
  | cons first hashes ih => rw [List.foldl_cons, ih, byHash_requeue]

theorem byHash_finalize (executed : List TxId) (hash : TxId) :
    (pool.finalize executed).byHash hash =
      if hash ∈ executed then none else pool.byHash hash := by
  unfold finalize
  rw [byHash_foldl_requeue]
  exact pool.byHash_removeMany executed hash

/-- The hashes with an entry in the priority queue, with repetitions. -/
def queued : List TxId := pool.byPriority.map OrderedEntry.hash

theorem foldl_requeue_entries (hashes : List TxId) (pool : Mempool Tx OrderingKey) :
    (hashes.foldl requeue pool).queued =
        (hashes.filter fun hash => pool.contains hash).reverse ++ pool.queued ∧
      (hashes.foldl requeue pool).inFlight = pool.inFlight := by
  induction hashes generalizing pool with
  | nil => exact ⟨rfl, rfl⟩
  | cons first hashes ih =>
    have hcontains : (pool.requeue first).contains = pool.contains := by
      funext hash
      rw [contains, contains, byHash_requeue]
    have hfirst : (pool.requeue first).queued =
          (if pool.contains first then [first] else []) ++ pool.queued ∧
        (pool.requeue first).inFlight = pool.inFlight := by
      unfold requeue contains
      cases pool.byHash first with
      | none => exact ⟨rfl, rfl⟩
      | some tx => exact ⟨rfl, rfl⟩
    obtain ⟨hqueued, hflight⟩ := ih (pool.requeue first)
    refine ⟨?_, hflight.trans hfirst.2⟩
    rw [List.foldl_cons, hqueued, hfirst.1, hcontains, List.filter_cons]
    by_cases hin : pool.contains first
    · simp [hin]
    · simp [hin]

/-- Finalizing puts what was in flight and was not executed back in the priority queue. -/
theorem finalize_entries (executed : List TxId) :
    (pool.finalize executed).queued =
        (pool.inFlight.filter fun hash => hash ∉ executed ∧ pool.contains hash).reverse ++
          pool.queued ∧
      (pool.finalize executed).inFlight = [] := by
  obtain ⟨hentries, hflight⟩ := pool.removeMany_entries executed
  have hrequeue := foldl_requeue_entries
    ((pool.removeMany executed).inFlight.filter fun hash => hash ∉ executed)
    { pool.removeMany executed with inFlight := [] }
  refine ⟨hrequeue.1.trans ?_, hrequeue.2⟩
  rw [hflight, List.filter_filter]
  unfold queued
  rw [hentries]
  congr 3
  funext hash
  unfold contains
  rw [byHash_removeMany]
  by_cases hin : hash ∈ executed
  · simp [hin]
  · simp [hin]

section Proposals

/-! ### Proposing -/

/-- What a selection has collected: the transactions, the sum of their gas limits, and the entries
that did not fit in the budget. -/
structure Selection (Tx OrderingKey : Type) where
  selected : List Tx
  totalGas : UInt64
  skippedEntries : List (OrderedEntry OrderingKey)

namespace Selection

def start : Selection Tx OrderingKey := ⟨[], 0, []⟩

def visit (byHash : TxId → Option Tx) (maxGas : UInt64) (s : Selection Tx OrderingKey)
    (entry : OrderedEntry OrderingKey) : Selection Tx OrderingKey :=
  match byHash entry.hash with
  -- a stale entry
  | none => s
  | some tx =>
    let txGas := MempoolTx.gasLimit tx
    if maxGas = 0 ∨ saturatingAdd s.totalGas txGas ≤ maxGas then
      { s with selected := s.selected ++ [tx], totalGas := saturatingAdd s.totalGas txGas }
    else { s with skippedEntries := s.skippedEntries ++ [entry] }

omit [MempoolTx Tx OrderingKey] in
def wantsMore (maxTxs : Nat) (s : Selection Tx OrderingKey) : Bool :=
  maxTxs = 0 || s.selected.length < maxTxs

end Selection

variable [LinearOrder OrderingKey]

abbrev BinaryHeap (OrderingKey : Type) [LinearOrder OrderingKey] :=
  Heap.Queue (OrderedEntry OrderingKey) OrderedEntry.key

variable (heap : BinaryHeap OrderingKey)

/-- The transactions with the highest priority that fit in the budget, and the sum of their gas
limits.  Each round takes an entry out, so there are at most as many rounds as entries. -/
def selectWithGasBudget (maxGas : UInt64) (maxTxs : Nat) (pool : Mempool Tx OrderingKey) :
    (List Tx × UInt64) × Mempool Tx OrderingKey :=
  let (entries, s) := Heap.sweep heap (Selection.wantsMore maxTxs)
    (Selection.visit pool.byHash maxGas) pool.byPriority.length pool.byPriority Selection.start
  ((s.selected, s.totalGas),
    { pool with byPriority := s.skippedEntries.foldl (fun entries e => e :: entries) entries })

def markInFlight (tx : Tx) : Mempool Tx OrderingKey :=
  { pool with inFlight := pool.inFlight.insert (MempoolTx.txId tx) }

def propose (maxGas : UInt64) (maxTxs : Nat) (pool : Mempool Tx OrderingKey) :
    (List Tx × UInt64) × Mempool Tx OrderingKey :=
  let (result, pool) := pool.selectWithGasBudget heap maxGas maxTxs
  (result, result.1.foldl markInFlight pool)

/-! ### What a proposal takes -/

omit [LinearOrder OrderingKey] in
/-- The entries that were visited are those of the selected transactions, stale ones, and those
that were skipped. -/
theorem Selection.foldl_visit (byHash : TxId → Option Tx) (maxGas : UInt64)
    (taken : List (OrderedEntry OrderingKey)) :
    ∃ chosen stale,
      taken.Perm (chosen ++ stale ++ (taken.foldl (visit byHash maxGas) start).skippedEntries) ∧
      List.Forall₂ (fun entry tx => byHash entry.hash = some tx) chosen
        (taken.foldl (visit byHash maxGas) start).selected ∧
      ∀ entry ∈ stale, byHash entry.hash = none := by
  induction taken using List.reverseRecOn with
  | nil => exact ⟨[], [], .refl _, .nil, by simp⟩
  | append_singleton taken entry ih =>
    obtain ⟨chosen, stale, hperm, hchosen, hstale⟩ := ih
    rw [List.foldl_append, List.foldl_cons, List.foldl_nil]
    generalize taken.foldl (visit byHash maxGas) start = s at hperm hchosen
    have hlast : (taken ++ [entry]).Perm (entry :: (chosen ++ stale ++ s.skippedEntries)) :=
      List.perm_append_comm.trans (hperm.cons entry)
    unfold visit
    cases hentry : byHash entry.hash with
    | none =>
      refine ⟨chosen, entry :: stale, hlast.trans ?_, hchosen, ?_⟩
      · simp only [List.append_assoc, List.cons_append]
        exact List.perm_middle.symm
      · exact List.forall_mem_cons.mpr ⟨hentry, hstale⟩
    | some tx =>
      dsimp only
      split
      · refine ⟨chosen ++ [entry], stale, hlast.trans ?_, ?_, hstale⟩
        · simp only [List.append_assoc, List.cons_append, List.nil_append]
          exact List.perm_middle.symm
        · exact List.rel_append hchosen (.cons hentry .nil)
      · refine ⟨chosen, stale, hlast.trans ?_, hchosen, hstale⟩
        simp only [← List.append_assoc]
        exact (List.perm_append_singleton entry _).symm

omit [LinearOrder OrderingKey] in
theorem Selection.skippedEntries_foldl_visit (byHash : TxId → Option Tx)
    (taken : List (OrderedEntry OrderingKey)) (s : Selection Tx OrderingKey) :
    (taken.foldl (visit byHash 0) s).skippedEntries = s.skippedEntries := by
  induction taken generalizing s with
  | nil => rfl
  | cons entry taken ih =>
    rw [List.foldl_cons, ih]
    unfold visit
    split
    · rfl
    · simp

/-- What a proposal does to the pool: the entries of the proposed transactions and some stale ones
leave the priority queue, and the proposed transactions are in flight. -/
structure Proposes (pool : Mempool Tx OrderingKey) (txs : List Tx)
    (after : Mempool Tx OrderingKey) : Prop where
  byHash : after.byHash = pool.byHash
  entries : ∃ chosen stale, pool.byPriority.Perm (chosen ++ stale ++ after.byPriority) ∧
    List.Forall₂ (fun entry tx => pool.byHash entry.hash = some tx) chosen txs ∧
    ∀ entry ∈ stale, pool.byHash entry.hash = none
  inFlight : ∀ hash,
    hash ∈ after.inFlight ↔ hash ∈ txs.map MempoolTx.txId ∨ hash ∈ pool.inFlight
  nodup : pool.inFlight.Nodup → after.inFlight.Nodup

omit [LinearOrder OrderingKey] in
theorem foldl_markInFlight (txs : List Tx) (pool : Mempool Tx OrderingKey) :
    ∃ hashes, txs.foldl markInFlight pool = { pool with inFlight := hashes } ∧
      (∀ hash, hash ∈ hashes ↔ hash ∈ txs.map MempoolTx.txId ∨ hash ∈ pool.inFlight) ∧
      (pool.inFlight.Nodup → hashes.Nodup) := by
  induction txs generalizing pool with
  | nil => exact ⟨pool.inFlight, rfl, by simp, id⟩
  | cons tx txs ih =>
    obtain ⟨hashes, hfold, hmem, hnodup⟩ := ih (pool.markInFlight tx)
    refine ⟨hashes, hfold, fun hash => ?_, fun h => hnodup (h.insert)⟩
    rw [hmem, markInFlight, List.mem_insert_iff, List.map_cons, List.mem_cons, or_left_comm,
      or_assoc]

omit [MempoolTx Tx OrderingKey] [LinearOrder OrderingKey] in
theorem foldl_cons_perm (skipped entries : List (OrderedEntry OrderingKey)) :
    (skipped.foldl (fun entries e => e :: entries) entries).Perm (skipped ++ entries) := by
  induction skipped generalizing entries with
  | nil => exact .refl _
  | cons e skipped ih => exact (ih (e :: entries)).trans List.perm_middle

/-- A selection, by the entries it visited. -/
theorem selectWithGasBudget_visits (maxGas : UInt64) (maxTxs : Nat)
    (pool : Mempool Tx OrderingKey) : ∃ taken rest entries, pool.byPriority.Perm (taken ++ rest) ∧
      entries.Perm
        ((taken.foldl (Selection.visit pool.byHash maxGas) .start).skippedEntries ++ rest) ∧
      pool.selectWithGasBudget heap maxGas maxTxs =
        (((taken.foldl (Selection.visit pool.byHash maxGas) .start).selected,
          (taken.foldl (Selection.visit pool.byHash maxGas) .start).totalGas),
          { pool with byPriority := entries }) ∧
      (maxTxs = 0 → rest = []) := by
  obtain ⟨taken, hperm, hvisits⟩ := Heap.sweep_visits heap (Selection.wantsMore maxTxs)
    (Selection.visit pool.byHash maxGas) pool.byPriority.length pool.byPriority .start
  refine ⟨taken, _, _, hperm, foldl_cons_perm _ _, ?_, fun hall => ?_⟩
  · unfold selectWithGasBudget
    rw [← hvisits]
  · exact Heap.sweep_all heap _ (fun s => by simp [Selection.wantsMore, hall]) le_rfl _

theorem propose_proposes (maxGas : UInt64) (maxTxs : Nat) (pool : Mempool Tx OrderingKey) :
    pool.Proposes (pool.propose heap maxGas maxTxs).1.1 (pool.propose heap maxGas maxTxs).2 := by
  obtain ⟨taken, rest, entries, hperm, hentries, hselect, -⟩ :=
    pool.selectWithGasBudget_visits heap maxGas maxTxs
  obtain ⟨chosen, stale, htaken, hchosen, hstale⟩ :=
    Selection.foldl_visit pool.byHash maxGas taken
  obtain ⟨hashes, hfold, hmem, hnodup⟩ := foldl_markInFlight
    (taken.foldl (Selection.visit pool.byHash maxGas) .start).selected
    { pool with byPriority := entries }
  unfold propose
  rw [hselect]
  dsimp only
  rw [hfold]
  refine ⟨rfl, ⟨chosen, stale, ?_, hchosen, hstale⟩, hmem, hnodup⟩
  have hvisited := hperm.trans (htaken.append_right rest)
  rw [List.append_assoc] at hvisited
  exact hvisited.trans (hentries.symm.append_left _)

theorem propose_unlimited (pool : Mempool Tx OrderingKey) :
    (pool.propose heap 0 0).2.byPriority = [] := by
  obtain ⟨taken, rest, entries, -, hentries, hselect, hrest⟩ :=
    pool.selectWithGasBudget_visits heap 0 0
  obtain ⟨hashes, hfold, -, -⟩ := foldl_markInFlight
    (taken.foldl (Selection.visit pool.byHash 0) .start).selected
    { pool with byPriority := entries }
  rw [hrest rfl, Selection.skippedEntries_foldl_visit] at hentries
  unfold propose
  rw [hselect]
  dsimp only
  rw [hfold]
  exact List.perm_nil.mp hentries

end Proposals

end Mempool

end Evolve
