import Mathlib
import Evolve.Mempool.Pool

/-! The pool under any sequence of operations.  A transaction that is in the pool has an entry in
the priority queue or is in flight.  A removed transaction leaves its entry behind, which serves it
again when it is added again. -/

namespace Evolve

open Machine Effects Mempool

variable {Tx OrderingKey : Type} [MempoolTx Tx OrderingKey] [LinearOrder OrderingKey]

inductive Operation (Tx OrderingKey : Type) [LinearOrder OrderingKey] where
  | add (tx : Tx)
  | remove (hash : TxId)
  | removeMany (hashes : List TxId)
  | propose (heap : BinaryHeap OrderingKey) (maxGas : UInt64) (maxTxs : Nat)
  | finalize (executed : List TxId)
  | clear

/-- The transactions that the operation proposes, and the pool after it; nothing where it panics. -/
def Operation.apply (pool : Mempool Tx OrderingKey) :
    Operation Tx OrderingKey → Option (List Tx × Mempool Tx OrderingKey)
  | .add tx =>
    match Mempool.add tx pool with
    | .done (_, pool) => some ([], pool)
    | _ => none
  | .remove hash => some ([], (pool.remove hash).2)
  | .removeMany hashes => some ([], pool.removeMany hashes)
  | .propose heap maxGas maxTxs =>
    let (result, pool) := pool.propose heap maxGas maxTxs
    some (result.1, pool)
  | .finalize executed => some ([], pool.finalize executed)
  | .clear => some ([], pool.clear)

namespace Mempool

/-- The operations that were made, each with what it proposed, the last one first. -/
abbrev History (Tx OrderingKey : Type) [LinearOrder OrderingKey] :=
  List (Operation Tx OrderingKey × List Tx)

/-- A sequence of operations that are allowed, from the empty pool. -/
inductive Run
    (Ok : History Tx OrderingKey → Mempool Tx OrderingKey → Operation Tx OrderingKey → Prop) :
    History Tx OrderingKey → Mempool Tx OrderingKey → Prop
  | empty : Run Ok [] Mempool.new
  | step {history : History Tx OrderingKey} {pool after : Mempool Tx OrderingKey}
      {op : Operation Tx OrderingKey} {txs : List Tx} (before : Run Ok history pool)
      (ok : Ok history pool op) (applies : op.apply pool = some (txs, after)) :
      Run Ok ((op, txs) :: history) after

/-- Any sequence of operations. -/
abbrev Reached : History Tx OrderingKey → Mempool Tx OrderingKey → Prop := Run fun _ _ _ => True

/-! ### The test transaction -/

structure TestGasTx where
  id : TxId
  gasPrice : U128
  nonce : UInt64
  sender : SenderKey
  gasLimit : UInt64

namespace TestGasTx

def new (id : UInt8) (gasPrice : U128) (nonce : UInt64) (sender : SenderKey) : TestGasTx :=
  ⟨.repeatByte 32 id, gasPrice, nonce, sender, 21000⟩

instance : MempoolTx TestGasTx GasPriceOrdering where
  txId tx := tx.id
  orderingKey tx := ⟨tx.gasPrice, tx.nonce⟩
  senderKey tx := some tx.sender
  gasLimit tx := tx.gasLimit

def alice : SenderKey := ⟨[97], by decide⟩

def first : TestGasTx := .new 1 100 0 alice

def second : TestGasTx := .new 2 50 1 alice

def heap : BinaryHeap GasPriceOrdering := Heap.greedyQueue OrderedEntry.key

end TestGasTx

/-! ### Single operations -/

omit [LinearOrder OrderingKey] in
theorem insert_entries (pool : Mempool Tx OrderingKey) (tx : Tx) :
    (pool.insert tx).byHash = Function.update pool.byHash (MempoolTx.txId tx) (some tx) ∧
      (pool.insert tx).queued = MempoolTx.txId tx :: pool.queued ∧
      (pool.insert tx).inFlight = pool.inFlight := by
  unfold insert
  dsimp only
  split
  · exact ⟨rfl, rfl, rfl⟩
  · exact ⟨rfl, rfl, rfl⟩

variable {after : Mempool Tx OrderingKey} {tx : Tx}

theorem apply_add {pool : Mempool Tx OrderingKey} {txs : List Tx}
    (h : (Operation.add tx).apply pool = some (txs, after)) :
    txs = [] ∧ (pool.contains (MempoolTx.txId tx) = true ∧ after = pool ∨
      pool.contains (MempoolTx.txId tx) = false ∧ pool.sequenceOverflows tx = false ∧
        after = pool.insert tx) := by
  dsimp only [Operation.apply, Mempool.add] at h
  by_cases hin : pool.contains (MempoolTx.txId tx)
  · rw [if_pos hin] at h
    cases h
    exact ⟨rfl, .inl ⟨hin, rfl⟩⟩
  · rw [if_neg hin] at h
    by_cases hoverflow : pool.sequenceOverflows tx
    · rw [if_pos hoverflow] at h
      cases h
    · rw [if_neg hoverflow] at h
      cases h
      exact ⟨rfl, .inr ⟨Bool.not_eq_true _ ▸ hin, Bool.not_eq_true _ ▸ hoverflow, rfl⟩⟩

/-- Every transaction is stored under its own hash. -/
def Keyed (pool : Mempool Tx OrderingKey) : Prop :=
  ∀ hash tx, pool.byHash hash = some tx → MempoolTx.txId tx = hash

omit [LinearOrder OrderingKey] in
theorem Keyed.insert {pool : Mempool Tx OrderingKey} (h : pool.Keyed) (tx : Tx) :
    (pool.insert tx).Keyed := by
  intro hash tx' htx'
  rw [(pool.insert_entries tx).1] at htx'
  by_cases hhash : hash = MempoolTx.txId tx
  · subst hhash
    rw [Function.update_self] at htx'
    cases htx'
    rfl
  · rw [Function.update_of_ne hhash] at htx'
    exact h hash tx' htx'

omit [LinearOrder OrderingKey] in
theorem Keyed.mono {pool : Mempool Tx OrderingKey} (h : pool.Keyed)
    (hsub : ∀ hash tx, after.byHash hash = some tx → pool.byHash hash = some tx) : after.Keyed :=
  fun hash tx htx => h hash tx (hsub hash tx htx)

omit [LinearOrder OrderingKey] in
theorem byHash_of_removeMany {pool : Mempool Tx OrderingKey} {hashes : List TxId} {hash : TxId}
    (h : (pool.removeMany hashes).byHash hash = some tx) : pool.byHash hash = some tx := by
  rw [byHash_removeMany] at h
  split at h
  · cases h
  · exact h

omit [LinearOrder OrderingKey] in
theorem byHash_of_finalize {pool : Mempool Tx OrderingKey} {executed : List TxId} {hash : TxId}
    (h : (pool.finalize executed).byHash hash = some tx) :
    hash ∉ executed ∧ pool.byHash hash = some tx := by
  rw [byHash_finalize] at h
  split at h
  · cases h
  · rename_i hin
    exact ⟨hin, h⟩

variable {txs : List Tx}

omit [LinearOrder OrderingKey] in
theorem Proposes.queued_perm {pool : Mempool Tx OrderingKey} (h : pool.Proposes txs after)
    (hkeyed : pool.Keyed) :
    ∃ stale, pool.queued.Perm (txs.map MempoolTx.txId ++ stale ++ after.queued) ∧
      ∀ hash ∈ stale, pool.contains hash = false := by
  obtain ⟨chosen, stale, hperm, hchosen, hstale⟩ := h.entries
  have hids : chosen.map OrderedEntry.hash = txs.map MempoolTx.txId := by
    clear hperm h
    induction hchosen with
    | nil => rfl
    | cons hentry _ ih => rw [List.map_cons, List.map_cons, ih, hkeyed _ _ hentry]
  refine ⟨stale.map OrderedEntry.hash, ?_, ?_⟩
  · have hqueued := hperm.map OrderedEntry.hash
    rwa [List.map_append, List.map_append, hids] at hqueued
  · intro hash hhash
    obtain ⟨entry, hentry, rfl⟩ := List.mem_map.mp hhash
    rw [contains, hstale entry hentry]
    rfl

omit [LinearOrder OrderingKey] in
theorem Proposes.byHash_txId {pool : Mempool Tx OrderingKey} (h : pool.Proposes txs after)
    (hkeyed : pool.Keyed) (htx : tx ∈ txs) : pool.byHash (MempoolTx.txId tx) = some tx := by
  obtain ⟨chosen, -, -, hchosen, -⟩ := h.entries
  clear h
  induction hchosen with
  | nil => cases htx
  | cons hentry _ ih =>
    rcases List.mem_cons.mp htx with rfl | htx
    · rw [hkeyed _ _ hentry]
      exact hentry
    · exact ih htx

theorem mem_propose_unlimited {pool : Mempool Tx OrderingKey} (hkeyed : pool.Keyed)
    (heap : BinaryHeap OrderingKey) {hash : TxId} (htx : pool.byHash hash = some tx)
    (hqueued : hash ∈ pool.queued) : tx ∈ (pool.propose heap 0 0).1.1 := by
  have hproposes := pool.propose_proposes heap 0 0
  obtain ⟨stale, hperm, hstale⟩ := hproposes.queued_perm hkeyed
  have hin : pool.contains hash = true := Option.isSome_iff_exists.mpr ⟨tx, htx⟩
  have hleft := hperm.subset hqueued
  rw [queued, propose_unlimited heap pool, List.map_nil, List.append_nil] at hleft
  rcases List.mem_append.mp hleft with hproposed | hgone
  · obtain ⟨tx', htx', rfl⟩ := List.mem_map.mp hproposed
    rw [hproposes.byHash_txId hkeyed htx'] at htx
    cases htx
    exact htx'
  · rw [hstale hash hgone] at hin
    cases hin

/-! ### No transaction is lost -/

/-- Every transaction in the pool is stored under its hash, and has an entry in the priority queue
or is in flight. -/
structure Tracked (pool : Mempool Tx OrderingKey) : Prop where
  keyed : pool.Keyed
  held : ∀ hash, pool.contains hash = true → hash ∈ pool.queued ∨ hash ∈ pool.inFlight

namespace Tracked

omit [LinearOrder OrderingKey]

theorem new : (Mempool.new : Mempool Tx OrderingKey).Tracked where
  keyed hash tx h := by cases h
  held hash h := by cases h

variable {pool : Mempool Tx OrderingKey} (h : pool.Tracked)

include h

theorem insert (tx : Tx) : (pool.insert tx).Tracked := by
  obtain ⟨hbyHash, hqueued, hflight⟩ := pool.insert_entries tx
  refine ⟨h.keyed.insert tx, fun hash hin => ?_⟩
  rw [hqueued, hflight, List.mem_cons, or_assoc]
  by_cases hhash : hash = MempoolTx.txId tx
  · exact .inl hhash
  · rw [contains, hbyHash, Function.update_of_ne hhash] at hin
    exact .inr (h.held hash hin)

theorem removeMany (hashes : List TxId) : (pool.removeMany hashes).Tracked := by
  obtain ⟨hentries, hflight⟩ := pool.removeMany_entries hashes
  refine ⟨h.keyed.mono fun _ _ => byHash_of_removeMany, fun hash hin => ?_⟩
  obtain ⟨tx, htx⟩ := Option.isSome_iff_exists.mp hin
  rw [queued, hentries, hflight]
  exact h.held hash (Option.isSome_iff_exists.mpr ⟨tx, byHash_of_removeMany htx⟩)

theorem proposes (hproposes : pool.Proposes txs after) : after.Tracked := by
  refine ⟨h.keyed.mono fun hash tx htx => hproposes.byHash ▸ htx, fun hash hin => ?_⟩
  rw [contains, hproposes.byHash, ← contains] at hin
  rw [hproposes.inFlight]
  rcases h.held hash hin with hqueued | hflight
  · obtain ⟨stale, hperm, hstale⟩ := hproposes.queued_perm h.keyed
    rcases List.mem_append.mp (hperm.subset hqueued) with hleft | hleft
    · rcases List.mem_append.mp hleft with hproposed | hgone
      · exact .inr (.inl hproposed)
      · rw [hstale hash hgone] at hin
        cases hin
    · exact .inl hleft
  · exact .inr (.inr hflight)

theorem mem_queued_finalize {executed : List TxId} {hash : TxId}
    (hin : (pool.finalize executed).contains hash = true) :
    hash ∈ (pool.finalize executed).queued := by
  obtain ⟨tx, htx⟩ := Option.isSome_iff_exists.mp hin
  obtain ⟨hexecuted, htx⟩ := byHash_of_finalize htx
  have hin : pool.contains hash = true := Option.isSome_iff_exists.mpr ⟨tx, htx⟩
  rw [(pool.finalize_entries executed).1, List.mem_append, List.mem_reverse]
  rcases h.held hash hin with hqueued | hflight
  · exact .inr hqueued
  · exact .inl (List.mem_filter.mpr ⟨hflight, by simp [hexecuted, hin]⟩)

theorem finalize (executed : List TxId) : (pool.finalize executed).Tracked where
  keyed := h.keyed.mono fun _ _ htx => (byHash_of_finalize htx).2
  held _ hin := .inl (h.mem_queued_finalize hin)

end Tracked

variable {op : Operation Tx OrderingKey}

theorem Tracked.apply {pool : Mempool Tx OrderingKey} (h : pool.Tracked)
    (happly : op.apply pool = some (txs, after)) : after.Tracked := by
  cases op with
  | add tx =>
    obtain ⟨rfl, ⟨-, rfl⟩ | ⟨-, -, rfl⟩⟩ := apply_add happly
    · exact h
    · exact h.insert tx
  | remove hash =>
    cases happly
    exact h.removeMany [hash]
  | removeMany hashes =>
    cases happly
    exact h.removeMany hashes
  | propose heap maxGas maxTxs =>
    cases happly
    exact h.proposes (pool.propose_proposes heap maxGas maxTxs)
  | finalize executed =>
    cases happly
    exact h.finalize executed
  | clear =>
    cases happly
    exact .new

theorem Run.tracked
    {Ok : History Tx OrderingKey → Mempool Tx OrderingKey → Operation Tx OrderingKey → Prop}
    {history : History Tx OrderingKey} {pool : Mempool Tx OrderingKey}
    (h : Run Ok history pool) : pool.Tracked := by
  induction h with
  | empty => exact .new
  | step before ok applies ih => exact ih.apply applies

/-- Whatever was done to the pool, every transaction in it has an entry in the priority queue or is
in flight; after the next finalize a proposal without limits has all that remain. -/
theorem reached_keeps_pending {history : History Tx OrderingKey} {pool : Mempool Tx OrderingKey}
    (h : Reached history pool) :
    (∀ hash, pool.contains hash = true → hash ∈ pool.queued ∨ hash ∈ pool.inFlight) ∧
      ∀ executed heap hash tx, (pool.finalize executed).byHash hash = some tx →
        tx ∈ ((pool.finalize executed).propose heap 0 0).1.1 := by
  have htracked := h.tracked
  refine ⟨htracked.held, fun executed heap hash tx htx => ?_⟩
  have hin : (pool.finalize executed).contains hash = true :=
    Option.isSome_iff_exists.mpr ⟨tx, htx⟩
  exact mem_propose_unlimited (htracked.finalize executed).keyed heap htx
    (htracked.mem_queued_finalize hin)

open TestGasTx in
/-- A proposed transaction is in flight, and comes back when a block without it is finalized. -/
theorem proposed_first_kept :
    ∃ pool : Mempool TestGasTx GasPriceOrdering,
      Reached [(.propose heap 0 0, [first]), (.add first, [])] pool ∧
      (first.id ∈ pool.queued ∨ first.id ∈ pool.inFlight) ∧
      first ∈ ((pool.finalize []).propose heap 0 0).1.1 := by
  let pool : Mempool TestGasTx GasPriceOrdering := ((Mempool.new.insert first).propose heap 0 0).2
  have hrun : Reached [(.propose heap 0 0, [first]), (.add first, [])] pool :=
    .step (.step .empty trivial rfl) trivial rfl
  have hkept := reached_keeps_pending hrun
  exact ⟨pool, hrun, hkept.1 first.id rfl, hkept.2 [] heap first.id first rfl⟩

/-! ### No transaction is proposed twice -/

/-- The transactions that were proposed since the last finalize. -/
def proposed : History Tx OrderingKey → List TxId
  | [] => []
  | (.finalize _, _) :: _ => []
  | (_, txs) :: history => txs.map MempoolTx.txId ++ proposed history

/-- A transaction that is added has no entry in the priority queue from before, and was not proposed
since the last finalize. -/
def AddsFresh (history : History Tx OrderingKey) (pool : Mempool Tx OrderingKey) :
    Operation Tx OrderingKey → Prop
  | .add tx =>
    pool.contains (MempoolTx.txId tx) = true ∨
      MempoolTx.txId tx ∉ pool.queued ∧ MempoolTx.txId tx ∉ proposed history
  | _ => True

/-- No hash has two entries, is proposed twice, or has an entry while it is proposed. -/
structure Distinct (history : History Tx OrderingKey) (pool : Mempool Tx OrderingKey) : Prop where
  keyed : pool.Keyed
  flightNodup : pool.inFlight.Nodup
  flight : ∀ hash ∈ pool.inFlight, hash ∈ proposed history
  nodup : (pool.queued ++ proposed history).Nodup

namespace Distinct

variable {history : History Tx OrderingKey} {pool : Mempool Tx OrderingKey}

theorem new : Distinct ([] : History Tx OrderingKey) Mempool.new where
  keyed hash tx h := by cases h
  flightNodup := .nil
  flight hash h := by cases h
  nodup := .nil

variable (h : Distinct history pool)

include h

theorem insert (hqueued : MempoolTx.txId tx ∉ pool.queued)
    (hproposed : MempoolTx.txId tx ∉ proposed history) :
    Distinct ((.add tx, []) :: history) (pool.insert tx) := by
  obtain ⟨-, hentries, hflight⟩ := pool.insert_entries tx
  refine ⟨h.keyed.insert tx, hflight ▸ h.flightNodup, hflight ▸ h.flight, ?_⟩
  rw [hentries]
  refine List.nodup_cons.mpr ⟨fun hin => ?_, h.nodup⟩
  exact (List.mem_append.mp hin).elim hqueued hproposed

theorem removeMany (hop : proposed ((op, []) :: history) = proposed history) (hashes : List TxId) :
    Distinct ((op, []) :: history) (pool.removeMany hashes) := by
  obtain ⟨hentries, hflight⟩ := pool.removeMany_entries hashes
  refine ⟨h.keyed.mono fun _ _ => byHash_of_removeMany, hflight ▸ h.flightNodup, ?_, ?_⟩
  · rw [hflight, hop]
    exact h.flight
  · rw [queued, hentries, hop]
    exact h.nodup

theorem proposes {heap : BinaryHeap OrderingKey} {maxGas : UInt64} {maxTxs : Nat}
    (hproposes : pool.Proposes txs after) :
    Distinct ((.propose heap maxGas maxTxs, txs) :: history) after := by
  obtain ⟨stale, hperm, -⟩ := hproposes.queued_perm h.keyed
  refine ⟨h.keyed.mono fun hash tx htx => hproposes.byHash ▸ htx,
    hproposes.nodup h.flightNodup, fun hash hhash => ?_, ?_⟩
  · rw [hproposes.inFlight] at hhash
    exact List.mem_append.mpr (hhash.imp id (h.flight hash))
  · have hmoved : (pool.queued ++ proposed history).Perm
        (stale ++ (after.queued ++ (txs.map MempoolTx.txId ++ proposed history))) := by
      refine (hperm.append_right _).trans (List.perm_iff_count.mpr fun hash => ?_)
      simp only [List.count_append]
      omega
    exact (hmoved.nodup_iff.mp h.nodup).of_append_right

theorem finalize (executed : List TxId) :
    Distinct ((.finalize executed, []) :: history) (pool.finalize executed) := by
  obtain ⟨hentries, hflight⟩ := pool.finalize_entries executed
  obtain ⟨hqueued, -, hapart⟩ := List.nodup_append.mp h.nodup
  refine ⟨h.keyed.mono fun _ _ htx => (byHash_of_finalize htx).2, ?_, ?_, ?_⟩
  · rw [hflight]
    exact .nil
  · rw [hflight]
    intro hash hhash
    cases hhash
  · rw [hentries, proposed, List.append_nil]
    refine List.nodup_append.mpr ⟨List.nodup_reverse.mpr (h.flightNodup.filter _), hqueued, ?_⟩
    intro hash hreturned other hother heq
    have hflying := (List.mem_filter.mp (List.mem_reverse.mp hreturned)).1
    exact hapart other hother hash (h.flight hash hflying) heq.symm

theorem apply (hok : AddsFresh history pool op) (happly : op.apply pool = some (txs, after)) :
    Distinct ((op, txs) :: history) after := by
  cases op with
  | add tx =>
    obtain ⟨rfl, ⟨-, rfl⟩ | ⟨hnew, -, rfl⟩⟩ := apply_add happly
    · exact ⟨h.keyed, h.flightNodup, h.flight, h.nodup⟩
    · rcases hok with hin | ⟨hqueued, hproposed⟩
      · rw [hnew] at hin
        cases hin
      · exact h.insert hqueued hproposed
  | remove hash =>
    cases happly
    exact h.removeMany rfl [hash]
  | removeMany hashes =>
    cases happly
    exact h.removeMany rfl hashes
  | propose heap maxGas maxTxs =>
    cases happly
    exact h.proposes (pool.propose_proposes heap maxGas maxTxs)
  | finalize executed =>
    cases happly
    exact h.finalize executed
  | clear =>
    cases happly
    refine ⟨new.keyed, .nil, ?_, h.nodup.of_append_right⟩
    intro hash hhash
    cases hhash

end Distinct

/-- Where no transaction is added while an entry of it is left, or while it is proposed, no proposal
has a transaction twice, or one that was proposed since the last finalize. -/
theorem proposed_nodup {history : History Tx OrderingKey} {pool : Mempool Tx OrderingKey}
    (h : Run AddsFresh history pool) : (proposed history).Nodup := by
  have hdistinct : Distinct history pool := by
    induction h with
    | empty => exact .new
    | step before ok applies ih => exact ih.apply ok applies
  exact hdistinct.nodup.of_append_right

open TestGasTx in
/-- A transaction is proposed, removed while it is in flight, and added again after the block is
finalized; it and another one are then proposed one by one. -/
def returned : History TestGasTx GasPriceOrdering :=
  [(.propose heap 0 1, [second]), (.propose heap 0 1, [first]), (.add first, []),
    (.finalize [], []), (.remove first.id, []), (.propose heap 0 1, [first]), (.add second, []),
    (.add first, [])]

open TestGasTx in
theorem returned_proposed_nodup :
    (∃ pool, Run AddsFresh returned pool) ∧ proposed returned = [second.id, first.id] ∧
      (proposed returned).Nodup := by
  have hruns : ∃ pool, Run AddsFresh returned pool := by
    refine ⟨_, .step (.step (.step (.step (.step (.step (.step (.step .empty ?_ rfl) ?_ rfl)
      trivial rfl) trivial rfl) trivial rfl) ?_ rfl) trivial rfl) trivial rfl⟩
    · exact .inr (by decide)
    · exact .inr (by decide)
    · exact .inr (by decide)
  obtain ⟨pool, hrun⟩ := hruns
  exact ⟨⟨pool, hrun⟩, rfl, proposed_nodup hrun⟩

open TestGasTx in
/-- A transaction is added, removed, added again, and proposed. -/
def readded : History TestGasTx GasPriceOrdering :=
  [(.propose heap 0 0, [first, first]), (.add first, []), (.remove first.id, []), (.add first, [])]

/-- The transaction has two entries in the priority queue, and is proposed twice. -/
theorem readded_proposed_twice :
    (∃ pool, Reached readded pool) ∧ ¬ (proposed readded).Nodup := by
  have hruns : ∃ pool, Reached readded pool :=
    ⟨_, .step (.step (.step (.step .empty trivial rfl) trivial rfl) trivial rfl) trivial rfl⟩
  exact ⟨hruns, by decide⟩

end Mempool

end Evolve
