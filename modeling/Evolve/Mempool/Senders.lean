import Mathlib
import Evolve.Mempool.Operations

/-! The index of the pool by senders.  Its sequence numbers start again when a sender has no
transaction left, and still list the transactions of a sender in the order in which they were
added. -/

namespace Evolve

open Machine Effects Mempool

namespace Mempool

variable {Tx OrderingKey : Type} [MempoolTx Tx OrderingKey]

def getSenderTxs (pool : Mempool Tx OrderingKey) (sender : SenderKey) : List TxId :=
  match pool.bySender sender with
  | none => []
  | some nonces => nonces.map Prod.snd

/-- The ids of the transactions of a sender. -/
def idsOf (txs : List Tx) (sender : SenderKey) : List TxId :=
  (txs.filter fun tx => MempoolTx.senderKey tx = some sender).map MempoolTx.txId

def without (hashes : List TxId) (txs : List Tx) : List Tx :=
  txs.filter fun tx => MempoolTx.txId tx ∉ hashes

theorem idsOf_without (hashes : List TxId) (txs : List Tx) (sender : SenderKey) :
    idsOf (without hashes txs) sender = (idsOf txs sender).filter (· ∉ hashes) := by
  unfold idsOf without
  rw [List.filter_map, List.filter_filter, List.filter_filter]
  congr 2
  funext tx
  exact Bool.and_comm _ _

theorem idsOf_append (txs : List Tx) (tx : Tx) (sender : SenderKey) :
    idsOf (txs ++ [tx]) sender =
      idsOf txs sender ++
        if MempoolTx.senderKey tx = some sender then [MempoolTx.txId tx] else [] := by
  unfold idsOf
  rw [List.filter_append, List.map_append]
  congr 1
  by_cases h : MempoolTx.senderKey tx = some sender
  · simp [h]
  · simp [h]

/-! ### The index of one sender -/

/-- The entries of a sender list its hashes, with sequence numbers below the next one. -/
structure Lists (hashes : List TxId) (entries : Option (List (UInt64 × TxId)))
    (next : Option UInt64) : Prop where
  hashes : (entries.getD []).map Prod.snd = hashes
  below : ∀ entry ∈ entries.getD [], entry.1 < next.getD 0

theorem insertSequence_of_lt {sequence : UInt64} (hash : TxId) {entries : List (UInt64 × TxId)}
    (h : ∀ entry ∈ entries, entry.1 < sequence) :
    insertSequence sequence hash entries = entries ++ [(sequence, hash)] := by
  induction entries with
  | nil => rfl
  | cons entry entries ih =>
    obtain ⟨hfirst, hrest⟩ := List.forall_mem_cons.mp h
    rw [insertSequence, if_neg (UInt64.lt_asymm hfirst), if_neg (UInt64.ne_of_lt hfirst).symm,
      ih hrest]
    rfl

theorem Lists.insert {hashes : List TxId} {entries : Option (List (UInt64 × TxId))}
    {next : Option UInt64} (h : Lists hashes entries next) (hmax : next.getD 0 ≠ u64Max)
    (hash : TxId) :
    Lists (hashes ++ [hash]) (some (insertSequence (next.getD 0) hash (entries.getD [])))
      (some (next.getD 0 + 1)) := by
  have hnext : next.getD 0 < next.getD 0 + 1 := by
    rw [UInt64.lt_iff_toNat_lt, toNat_add_one hmax]
    exact Nat.lt_succ_self _
  rw [insertSequence_of_lt hash h.below]
  refine ⟨?_, fun entry hentry => ?_⟩
  · rw [Option.getD_some, List.map_append, h.hashes]
    rfl
  · rcases List.mem_append.mp hentry with hold | hnew
    · exact UInt64.lt_trans (h.below entry hold) hnext
    · rw [List.mem_singleton.mp hnew]
      exact hnext

omit [MempoolTx Tx OrderingKey] in
theorem getSenderTxs_of_lists {pool : Mempool Tx OrderingKey} {sender : SenderKey}
    {hashes : List TxId} (h : Lists hashes (pool.bySender sender) (pool.bySenderSeq sender)) :
    pool.getSenderTxs sender = hashes := by
  rw [← h.hashes, getSenderTxs]
  cases pool.bySender sender <;> rfl

omit [MempoolTx Tx OrderingKey] in
/-- A sender that loses its last hash loses its sequence number with it. -/
theorem Lists.untrack {pool : Mempool Tx OrderingKey} {other : SenderKey} {hashes : List TxId}
    (h : Lists hashes (pool.bySender other) (pool.bySenderSeq other)) (sender : SenderKey)
    (hash : TxId) :
    Lists (if other = sender then hashes.filter (· ≠ hash) else hashes)
      ((pool.untrack sender hash).bySender other)
      ((pool.untrack sender hash).bySenderSeq other) := by
  have hfilter : (((pool.bySender other).getD []).filter fun entry => entry.2 ≠ hash).map Prod.snd =
      hashes.filter (· ≠ hash) := by
    rw [← h.hashes, List.filter_map]
    rfl
  by_cases heq : other = sender
  · subst heq
    rw [if_pos rfl, ← hfilter]
    unfold Mempool.untrack
    cases hentries : pool.bySender other with
    | none => exact ⟨by simp [hentries], by simp [hentries]⟩
    | some entries =>
      dsimp only
      split
      · rename_i hempty
        rw [Option.getD_some, List.isEmpty_iff.mp hempty]
        exact ⟨by simp, by simp⟩
      · rw [hentries] at h
        refine ⟨by simp, fun entry hentry => h.below entry ?_⟩
        simp only [Function.update_self, Option.getD_some] at hentry
        exact List.mem_of_mem_filter hentry
  · rw [if_neg heq]
    unfold Mempool.untrack
    split
    · exact h
    · dsimp only
      split
      · simpa only [Function.update_of_ne heq] using h
      · simpa only [Function.update_of_ne heq] using h

/-! ### The index of a pool -/

theorem insert_senders (pool : Mempool Tx OrderingKey) (tx : Tx) (sender : SenderKey) :
    ((pool.insert tx).bySender sender, (pool.insert tx).bySenderSeq sender) =
      if MempoolTx.senderKey tx = some sender then
        (some (insertSequence (pool.nextSenderSequence sender) (MempoolTx.txId tx)
          ((pool.bySender sender).getD [])), some (pool.nextSenderSequence sender + 1))
      else (pool.bySender sender, pool.bySenderSeq sender) := by
  unfold insert
  dsimp only
  cases hsender : MempoolTx.senderKey tx with
  | none => rfl
  | some other =>
    unfold track
    by_cases h : other = sender
    · subst h
      simp [push, nextSenderSequence]
    · simp [h, push, Function.update_of_ne (Ne.symm h)]

/-- The pool holds the given transactions, and its index lists those of each sender in this
order. -/
structure Indexes (txs : List Tx) (pool : Mempool Tx OrderingKey) : Prop where
  nodup : (txs.map MempoolTx.txId).Nodup
  byHash : ∀ hash tx, pool.byHash hash = some tx ↔ tx ∈ txs ∧ MempoolTx.txId tx = hash
  senders : ∀ sender, Lists (idsOf txs sender) (pool.bySender sender) (pool.bySenderSeq sender)

namespace Indexes

theorem new : Indexes [] (Mempool.new : Mempool Tx OrderingKey) where
  nodup := .nil
  byHash hash tx := by simp [Mempool.new]
  senders _ := ⟨rfl, by simp [Mempool.new]⟩

variable {txs : List Tx} {pool : Mempool Tx OrderingKey} (h : Indexes txs pool)
include h

theorem mem_ids_iff (hash : TxId) : hash ∈ txs.map MempoolTx.txId ↔ pool.contains hash = true := by
  rw [List.mem_map, contains, Option.isSome_iff_exists]
  exact exists_congr fun tx => (h.byHash hash tx).symm

theorem insert {tx : Tx} (hnew : pool.contains (MempoolTx.txId tx) = false)
    (hoverflow : pool.sequenceOverflows tx = false) : Indexes (txs ++ [tx]) (pool.insert tx) := by
  have hfresh : MempoolTx.txId tx ∉ txs.map MempoolTx.txId := by
    rw [h.mem_ids_iff, hnew]
    exact Bool.false_ne_true
  refine ⟨?_, fun hash tx' => ?_, fun sender => ?_⟩
  · rw [List.map_append, List.map_singleton]
    exact List.nodup_append.mpr ⟨h.nodup, List.nodup_singleton _, by
      rintro _ hold _ hlast rfl
      rw [List.mem_singleton.mp hlast] at hold
      exact hfresh hold⟩
  · rw [(pool.insert_entries tx).1, List.mem_append, List.mem_singleton]
    by_cases hhash : hash = MempoolTx.txId tx
    · subst hhash
      rw [Function.update_self, Option.some.injEq]
      refine ⟨by rintro rfl; exact ⟨.inr rfl, rfl⟩, fun ⟨hmem, hid⟩ => ?_⟩
      rcases hmem with hold | rfl
      · exact absurd (List.mem_map.mpr ⟨tx', hold, hid⟩) hfresh
      · rfl
    · rw [Function.update_of_ne hhash, h.byHash]
      refine ⟨fun ⟨hmem, hid⟩ => ⟨.inl hmem, hid⟩, fun ⟨hmem, hid⟩ => ⟨?_, hid⟩⟩
      rcases hmem with hold | rfl
      · exact hold
      · exact absurd hid.symm hhash
  · have hsenders := pool.insert_senders tx sender
    have hold := h.senders sender
    rw [idsOf_append]
    by_cases hsender : MempoolTx.senderKey tx = some sender
    · rw [if_pos hsender] at hsenders ⊢
      have hmax : (pool.bySenderSeq sender).getD 0 ≠ u64Max := by
        unfold sequenceOverflows at hoverflow
        rw [hsender] at hoverflow
        exact of_decide_eq_false hoverflow
      obtain ⟨hentries, hnext⟩ := Prod.mk.inj hsenders
      rw [hentries, hnext]
      exact hold.insert hmax _
    · rw [if_neg hsender] at hsenders ⊢
      obtain ⟨hentries, hnext⟩ := Prod.mk.inj hsenders
      rw [hentries, hnext, List.append_nil]
      exact hold

theorem mem_idsOf {sender : SenderKey} {hash : TxId} (hmem : hash ∈ idsOf txs sender) :
    ∃ tx, pool.byHash hash = some tx ∧ MempoolTx.senderKey tx = some sender := by
  obtain ⟨tx, htx, hid⟩ := List.mem_map.mp hmem
  obtain ⟨htx, hsender⟩ := List.mem_filter.mp htx
  exact ⟨tx, (h.byHash hash tx).mpr ⟨htx, hid⟩, of_decide_eq_true hsender⟩

theorem remove (hash : TxId) : Indexes (without [hash] txs) (pool.remove hash).2 := by
  refine ⟨h.nodup.sublist (List.filter_sublist.map _), fun hash' tx => ?_, fun sender => ?_⟩
  · rw [byHash_remove, without, List.mem_filter]
    by_cases hhash : hash' = hash
    · subst hhash
      rw [Function.update_self]
      refine ⟨fun hnone => (by cases hnone), fun ⟨hmem, hid⟩ => ?_⟩
      simp [hid] at hmem
    · rw [Function.update_of_ne hhash, h.byHash]
      refine ⟨fun ⟨hmem, hid⟩ => ⟨⟨hmem, ?_⟩, hid⟩, fun ⟨hmem, hid⟩ => ⟨hmem.1, hid⟩⟩
      simpa [hid] using hhash
  · have hold := h.senders sender
    have hothers : (∀ tx, pool.byHash hash = some tx → MempoolTx.senderKey tx ≠ some sender) →
        (idsOf txs sender).filter (· ∉ [hash]) = idsOf txs sender := fun hnone => by
      refine List.filter_eq_self.mpr fun hash' hmem => ?_
      obtain ⟨tx, htx, hsender⟩ := h.mem_idsOf hmem
      simp only [List.mem_singleton, decide_eq_true_eq]
      rintro rfl
      exact hnone tx htx hsender
    rw [idsOf_without]
    unfold Mempool.remove
    cases htx : pool.byHash hash with
    | none =>
      rw [hothers (by simp [htx])]
      exact hold
    | some tx =>
      dsimp only
      cases hsender : MempoolTx.senderKey tx with
      | none =>
        rw [hothers (by simp [htx, hsender])]
        exact hold
      | some owner =>
        have huntracked := @Lists.untrack Tx OrderingKey
          { pool with byHash := Function.update pool.byHash hash none } sender _ hold owner hash
        split at huntracked
        · simpa using huntracked
        · rename_i hne
          rw [hothers fun tx' htx' => ?_]
          · exact huntracked
          · cases htx.symm.trans htx'
            rw [hsender]
            simpa using Ne.symm hne

theorem removeMany (hashes : List TxId) :
    Indexes (without hashes txs) (pool.removeMany hashes) := by
  induction hashes generalizing txs pool with
  | nil => simpa [without, Mempool.removeMany] using h
  | cons hash hashes ih =>
    have hsplit : without (hash :: hashes) txs = without hashes (without [hash] txs) := by
      simp [without, List.filter_filter, Bool.and_comm]
    rw [hsplit]
    exact ih (h.remove hash)

theorem of_eq {after : Mempool Tx OrderingKey} (hbyHash : after.byHash = pool.byHash)
    (hsenders : after.bySender = pool.bySender) (hnext : after.bySenderSeq = pool.bySenderSeq) :
    Indexes txs after :=
  ⟨h.nodup, hbyHash ▸ h.byHash, fun sender => hsenders ▸ hnext ▸ h.senders sender⟩

theorem finalize (executed : List TxId) :
    Indexes (without executed txs) (pool.finalize executed) := by
  have hremoved := h.removeMany executed
  have hrequeue : ∀ (hashes : List TxId) (pool : Mempool Tx OrderingKey),
      (hashes.foldl requeue pool).bySender = pool.bySender ∧
        (hashes.foldl requeue pool).bySenderSeq = pool.bySenderSeq := by
    intro hashes
    induction hashes with
    | nil => exact fun _ => ⟨rfl, rfl⟩
    | cons hash hashes ih =>
      intro pool
      obtain ⟨hsenders, hnext⟩ := ih (pool.requeue hash)
      have hfirst : (pool.requeue hash).bySender = pool.bySender ∧
          (pool.requeue hash).bySenderSeq = pool.bySenderSeq := by
        unfold requeue
        split <;> exact ⟨rfl, rfl⟩
      exact ⟨hsenders.trans hfirst.1, hnext.trans hfirst.2⟩
  obtain ⟨hsenders, hnext⟩ := hrequeue _ { pool.removeMany executed with inFlight := [] }
  exact hremoved.of_eq (byHash_foldl_requeue _ _) hsenders hnext

end Indexes

/-! ### Sequences of operations -/

variable [LinearOrder OrderingKey]

/-- The transactions in the pool after a sequence of operations, in the order in which they were
added. -/
def pooled : History Tx OrderingKey → List Tx
  | [] => []
  | (.add tx, _) :: history =>
    if MempoolTx.txId tx ∈ (pooled history).map MempoolTx.txId then pooled history
    else pooled history ++ [tx]
  | (.remove hash, _) :: history => without [hash] (pooled history)
  | (.removeMany hashes, _) :: history => without hashes (pooled history)
  | (.propose _ _ _, _) :: history => pooled history
  | (.finalize executed, _) :: history => without executed (pooled history)
  | (.clear, _) :: _ => []

theorem propose_senders (heap : BinaryHeap OrderingKey) (maxGas : UInt64) (maxTxs : Nat)
    (pool : Mempool Tx OrderingKey) :
    (pool.propose heap maxGas maxTxs).2.bySender = pool.bySender ∧
      (pool.propose heap maxGas maxTxs).2.bySenderSeq = pool.bySenderSeq := by
  obtain ⟨taken, rest, entries, -, -, hselect, -⟩ :=
    pool.selectWithGasBudget_visits heap maxGas maxTxs
  obtain ⟨hashes, hfold, -, -⟩ := foldl_markInFlight
    (taken.foldl (Selection.visit pool.byHash maxGas) .start).selected
    { pool with byPriority := entries }
  unfold propose
  rw [hselect]
  dsimp only
  rw [hfold]
  exact ⟨rfl, rfl⟩

theorem Indexes.apply {history : History Tx OrderingKey} {pool after : Mempool Tx OrderingKey}
    (h : Indexes (pooled history) pool) {op : Operation Tx OrderingKey} {txs : List Tx}
    (happly : op.apply pool = some (txs, after)) :
    Indexes (pooled ((op, txs) :: history)) after := by
  cases op with
  | add tx =>
    rw [pooled]
    obtain ⟨-, ⟨hin, rfl⟩ | ⟨hnew, hoverflow, rfl⟩⟩ := apply_add happly
    · rw [if_pos ((h.mem_ids_iff _).mpr hin)]
      exact h
    · rw [if_neg fun hin => by rw [h.mem_ids_iff, hnew] at hin; cases hin]
      exact h.insert hnew hoverflow
  | remove hash =>
    cases happly
    exact h.remove hash
  | removeMany hashes =>
    cases happly
    exact h.removeMany hashes
  | propose heap maxGas maxTxs =>
    cases happly
    obtain ⟨hsenders, hnext⟩ := pool.propose_senders heap maxGas maxTxs
    exact h.of_eq (pool.propose_proposes heap maxGas maxTxs).byHash hsenders hnext
  | finalize executed =>
    cases happly
    exact h.finalize executed
  | clear =>
    cases happly
    exact .new

/-- After every sequence of operations, the index has for every sender the ids of its transactions
in the pool, each once, in the order in which they were added. -/
theorem getSenderTxs_of_reached {history : History Tx OrderingKey} {pool : Mempool Tx OrderingKey}
    (h : Reached history pool) (sender : SenderKey) :
    pool.getSenderTxs sender = idsOf (pooled history) sender ∧
      (pool.getSenderTxs sender).Nodup ∧
      ∀ hash tx, pool.byHash hash = some tx ↔
        tx ∈ pooled history ∧ MempoolTx.txId tx = hash := by
  have hindexes : Indexes (pooled history) pool := by
    induction h with
    | empty => exact .new
    | step before ok applies ih => exact ih.apply applies
  have hlist := getSenderTxs_of_lists (hindexes.senders sender)
  refine ⟨hlist, hlist ▸ ?_, hindexes.byHash⟩
  exact hindexes.nodup.sublist (List.filter_sublist.map _)

open TestGasTx in
/-- A transaction that is added again after it was removed comes last. -/
theorem getSenderTxs_of_reached_again :
    let second : TestGasTx := .new 2 50 1 alice
    ∃ pool : Mempool TestGasTx GasPriceOrdering,
      Reached [(.add first, []), (.remove first.id, []), (.add second, []), (.add first, [])] pool ∧
      pool.getSenderTxs alice = [second.id, first.id] := by
  intro second
  have hrun : Reached
      [(.add first, []), (.remove first.id, []), (.add second, []), (.add first, [])]
      ((((Mempool.new.insert first).insert second).remove first.id).2.insert first) :=
    .step (.step (.step (.step .empty trivial rfl) trivial rfl) trivial rfl) trivial rfl
  exact ⟨_, hrun, (getSenderTxs_of_reached hrun alice).1.trans (by decide +kernel)⟩

end Mempool

end Evolve
