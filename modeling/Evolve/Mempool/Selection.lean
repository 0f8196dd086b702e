import Mathlib
import Evolve.Mempool.Operations

/-! What a selection from the pool returns, against the transactions in the order of their
priority.  Stale entries are passed over, so a selection is a scan over the entries of transactions
that are in the pool; `peek` looks at the top entry only. -/

namespace Evolve

open Machine Effects Mempool

namespace Mempool

variable {Tx OrderingKey : Type} [MempoolTx Tx OrderingKey]

/-! ### The scan -/

def gasOf (txs : List Tx) : Nat := (txs.map fun tx => (MempoolTx.gasLimit tx).toNat).sum

/-- Takes each transaction for which the count limit leaves room and whose gas limit fits into what
is left of the budget. -/
def greedyScan (maxGas maxTxs : Nat) : List Tx → List Tx → List Tx
  | taken, [] => taken
  | taken, tx :: txs =>
    if (maxTxs = 0 ∨ taken.length < maxTxs) ∧ gasOf taken + (MempoolTx.gasLimit tx).toNat ≤ maxGas
    then greedyScan maxGas maxTxs (taken ++ [tx]) txs
    else greedyScan maxGas maxTxs taken txs

theorem greedyScan_full {maxGas maxTxs : Nat} {taken : List Tx}
    (hfull : ¬(maxTxs = 0 ∨ taken.length < maxTxs)) (txs : List Tx) :
    greedyScan maxGas maxTxs taken txs = taken := by
  induction txs with
  | nil => rfl
  | cons tx txs ih => rw [greedyScan, if_neg fun h => hfull h.1, ih]

/-- The entries of transactions that are in the pool. -/
def live (pool : Mempool Tx OrderingKey) (entries : List (OrderedEntry OrderingKey)) :
    List (OrderedEntry OrderingKey) :=
  entries.filter fun entry => pool.contains entry.hash

def txsOf (pool : Mempool Tx OrderingKey) (entries : List (OrderedEntry OrderingKey)) : List Tx :=
  entries.filterMap fun entry => pool.byHash entry.hash

omit [MempoolTx Tx OrderingKey] in
theorem txsOf_cons (pool : Mempool Tx OrderingKey) (entry : OrderedEntry OrderingKey)
    (entries : List (OrderedEntry OrderingKey)) :
    pool.txsOf (entry :: entries) = (pool.byHash entry.hash).toList ++ pool.txsOf entries := by
  unfold txsOf
  rw [List.filterMap_cons]
  cases pool.byHash entry.hash <;> rfl

omit [MempoolTx Tx OrderingKey] in
theorem txsOf_live (pool : Mempool Tx OrderingKey) (entries : List (OrderedEntry OrderingKey)) :
    pool.txsOf (pool.live entries) = pool.txsOf entries := by
  unfold txsOf live
  rw [List.filterMap_filter]
  refine List.filterMap_congr fun entry _ => ?_
  unfold contains
  cases pool.byHash entry.hash <;> rfl

/-! ### The selection -/

variable {maxGas : UInt64}

namespace Selection

/-- What is known of the gas while entries are visited: the total is exact and within the budget. -/
structure WithinBudget (maxGas : UInt64) (s : Selection Tx OrderingKey) : Prop where
  exact : s.totalGas.toNat = gasOf s.selected
  within : s.totalGas ≤ maxGas

theorem withinBudget_start (maxGas : UInt64) :
    (start : Selection Tx OrderingKey).WithinBudget maxGas :=
  ⟨rfl, UInt64.le_iff_toNat_le.mpr (Nat.zero_le _)⟩

/-- An entry is stale, or its transaction is taken, or it does not fit into the budget. -/
theorem WithinBudget.visit (hpos : 0 < maxGas) (hmax : maxGas < u64Max)
    {s : Selection Tx OrderingKey} (hs : s.WithinBudget maxGas) (byHash : TxId → Option Tx)
    (entry : OrderedEntry OrderingKey) :
    (s.visit byHash maxGas entry).WithinBudget maxGas ∧
      (s.visit byHash maxGas entry).selected =
        match byHash entry.hash with
        | none => s.selected
        | some tx =>
          if gasOf s.selected + (MempoolTx.gasLimit tx).toNat ≤ maxGas.toNat
          then s.selected ++ [tx] else s.selected := by
  unfold Selection.visit
  cases byHash entry.hash with
  | none => exact ⟨hs, rfl⟩
  | some tx =>
    have hlt : maxGas.toNat < 2 ^ 64 - 1 := UInt64.lt_iff_toNat_lt.mp hmax
    have hfits : (maxGas = 0 ∨ saturatingAdd s.totalGas (MempoolTx.gasLimit tx) ≤ maxGas) ↔
        gasOf s.selected + (MempoolTx.gasLimit tx).toNat ≤ maxGas.toNat := by
      rw [or_iff_right (UInt64.pos_iff_ne_zero.mp hpos), UInt64.le_iff_toNat_le,
        toNat_saturatingAdd, hs.exact]
      omega
    dsimp only
    by_cases h : gasOf s.selected + (MempoolTx.gasLimit tx).toNat ≤ maxGas.toNat
    · have hle := (hfits.mpr h).resolve_left (UInt64.pos_iff_ne_zero.mp hpos)
      rw [if_pos (hfits.mpr h), if_pos h]
      refine ⟨⟨?_, hle⟩, rfl⟩
      rw [toNat_saturatingAdd_of_lt hlt hle, hs.exact]
      simp [gasOf]
    · rw [if_neg fun h' => h (hfits.mp h'), if_neg h]
      exact ⟨⟨hs.exact, hs.within⟩, rfl⟩

theorem WithinBudget.visitWhile (hpos : 0 < maxGas) (hmax : maxGas < u64Max) (maxTxs : Nat)
    (pool : Mempool Tx OrderingKey) (order : List (OrderedEntry OrderingKey))
    {s : Selection Tx OrderingKey} (hs : s.WithinBudget maxGas) :
    (Heap.visitWhile (wantsMore maxTxs) (Selection.visit pool.byHash maxGas) order s).2.WithinBudget
        maxGas ∧
      (Heap.visitWhile (wantsMore maxTxs) (Selection.visit pool.byHash maxGas) order s).2.selected =
        greedyScan maxGas.toNat maxTxs s.selected (pool.txsOf order) := by
  induction order generalizing s with
  | nil => exact ⟨hs, rfl⟩
  | cons entry order ih =>
    unfold Heap.visitWhile
    by_cases hmore : wantsMore maxTxs s
    · rw [if_pos hmore]
      obtain ⟨hvisit, hselected⟩ := hs.visit hpos hmax pool.byHash entry
      obtain ⟨hbudget, hscan⟩ := ih hvisit
      refine ⟨hbudget, hscan.trans ?_⟩
      rw [hselected, txsOf_cons]
      cases pool.byHash entry.hash with
      | none => rfl
      | some tx =>
        have hroom : maxTxs = 0 ∨ s.selected.length < maxTxs := by
          simpa [wantsMore] using hmore
        rw [Option.toList_some, List.singleton_append, greedyScan]
        dsimp only
        split
        · rename_i hfits
          rw [if_pos ⟨hroom, hfits⟩]
        · rename_i hfits
          rw [if_neg fun h => hfits h.2]
    · rw [if_neg hmore]
      refine ⟨hs, (greedyScan_full ?_ _).symm⟩
      simpa [wantsMore] using hmore

end Selection

/-! ### Priorities -/

/-- Every entry has the ordering key of a transaction with its hash. -/
def Stamped (pool : Mempool Tx OrderingKey) : Prop :=
  ∀ entry ∈ pool.byPriority, ∃ tx : Tx, MempoolTx.txId tx = entry.hash ∧
    MempoolTx.orderingKey tx = entry.key

variable {pool after : Mempool Tx OrderingKey}

theorem Stamped.mono (h : pool.Stamped) (hsub : after.byPriority ⊆ pool.byPriority) :
    after.Stamped :=
  fun entry hentry => h entry (hsub hentry)

theorem Stamped.push (h : pool.Stamped) (tx : Tx) : (pool.push (MempoolTx.txId tx) tx).Stamped := by
  intro entry hentry
  rcases List.mem_cons.mp hentry with rfl | hentry
  · exact ⟨tx, rfl, rfl⟩
  · exact h entry hentry

theorem Stamped.insert (h : pool.Stamped) (tx : Tx) : (pool.insert tx).Stamped := by
  have hpush := Stamped.push h tx
  unfold Mempool.insert
  dsimp only
  split <;> exact hpush

theorem Stamped.foldl_requeue (h : pool.Stamped) (hkeyed : pool.Keyed) (hashes : List TxId) :
    (hashes.foldl requeue pool).Stamped := by
  induction hashes generalizing pool with
  | nil => exact h
  | cons hash hashes ih =>
    refine ih ?_ fun hash' tx htx => hkeyed hash' tx (byHash_requeue pool hash ▸ htx)
    unfold requeue
    split
    · exact h
    · rename_i tx htx
      rw [← hkeyed hash tx htx]
      exact h.push tx

theorem Stamped.finalize (h : pool.Stamped) (hkeyed : pool.Keyed) (executed : List TxId) :
    (pool.finalize executed).Stamped := by
  have hremoved : ({ pool.removeMany executed with inFlight := [] } :
      Mempool Tx OrderingKey).Stamped := by
    refine h.mono ?_
    show (pool.removeMany executed).byPriority ⊆ _
    rw [(pool.removeMany_entries executed).1]
    exact List.Subset.refl _
  exact hremoved.foldl_requeue (fun _ _ htx => hkeyed _ _ (byHash_of_removeMany htx)) _

variable [LinearOrder OrderingKey]

theorem Stamped.apply (h : pool.Stamped) (hkeyed : pool.Keyed) {op : Operation Tx OrderingKey}
    {txs : List Tx} (happly : op.apply pool = some (txs, after)) : after.Stamped := by
  have hremove : ∀ hashes, (pool.removeMany hashes).Stamped := fun hashes =>
    h.mono ((pool.removeMany_entries hashes).1 ▸ List.Subset.refl _)
  cases op with
  | add tx =>
    obtain ⟨-, ⟨-, rfl⟩ | ⟨-, -, rfl⟩⟩ := apply_add happly
    · exact h
    · exact h.insert tx
  | remove hash =>
    cases happly
    exact hremove [hash]
  | removeMany hashes =>
    cases happly
    exact hremove hashes
  | propose heap maxGas maxTxs =>
    cases happly
    obtain ⟨chosen, stale, hperm, -, -⟩ := (pool.propose_proposes heap maxGas maxTxs).entries
    exact h.mono fun entry hentry => hperm.mem_iff.mpr (List.mem_append_right _ hentry)
  | finalize executed =>
    cases happly
    exact h.finalize hkeyed executed
  | clear =>
    cases happly
    intro entry hentry
    cases hentry

theorem Run.stamped
    {Ok : History Tx OrderingKey → Mempool Tx OrderingKey → Operation Tx OrderingKey → Prop}
    {history : History Tx OrderingKey} (h : Run Ok history pool) : pool.Stamped := by
  induction h with
  | empty =>
    intro entry hentry
    cases hentry
  | step before ok applies ih => exact ih.apply before.tracked.keyed applies

variable {entry : OrderedEntry OrderingKey}

theorem key_eq_of_reached {history : History Tx OrderingKey} (h : Reached history pool)
    (hids : ∀ tx tx' : Tx, MempoolTx.txId tx = MempoolTx.txId tx' →
      MempoolTx.orderingKey tx = MempoolTx.orderingKey tx') (hentry : entry ∈ pool.byPriority)
    {tx : Tx} (htx : pool.byHash entry.hash = some tx) : entry.key = MempoolTx.orderingKey tx := by
  obtain ⟨tx', hid, hkey⟩ := h.stamped entry hentry
  rw [← hkey]
  exact hids tx' tx (hid.trans (h.tracked.keyed _ _ htx).symm)

/-! ### What is selected -/

/-- The entries in the order in which they leave the priority queue. -/
def order (heap : BinaryHeap OrderingKey) (pool : Mempool Tx OrderingKey) :
    List (OrderedEntry OrderingKey) :=
  Heap.drain heap pool.byPriority.length pool.byPriority

omit [MempoolTx Tx OrderingKey] in
theorem order_perm (heap : BinaryHeap OrderingKey) (pool : Mempool Tx OrderingKey) :
    (pool.order heap).Perm pool.byPriority := Heap.drain_perm heap le_rfl

theorem selectWithGasBudget_scan (hpos : 0 < maxGas) (hmax : maxGas < u64Max)
    (heap : BinaryHeap OrderingKey) (maxTxs : Nat) (pool : Mempool Tx OrderingKey) :
    let result := (pool.selectWithGasBudget heap maxGas maxTxs).1
    result.1 = greedyScan maxGas.toNat maxTxs [] (pool.txsOf (pool.order heap)) ∧
      result.2.toNat = gasOf result.1 ∧ result.2 ≤ maxGas := by
  obtain ⟨hbudget, hscan⟩ := (Selection.withinBudget_start maxGas).visitWhile hpos hmax maxTxs pool
    (pool.order heap)
  obtain ⟨hsweep, -⟩ := Heap.sweep_eq_visitWhile heap (Selection.wantsMore maxTxs)
    (Selection.visit pool.byHash maxGas) (le_refl pool.byPriority.length) .start
  rw [order, ← hsweep] at hbudget hscan
  exact ⟨hscan, hbudget.exact, hbudget.within⟩

theorem propose_gas (hpos : 0 < maxGas) (hmax : maxGas < u64Max) (heap : BinaryHeap OrderingKey)
    (maxTxs : Nat) (pool : Mempool Tx OrderingKey) :
    ((pool.propose heap maxGas maxTxs).1.1.map fun tx => (MempoolTx.gasLimit tx).toNat).sum ≤
      maxGas.toNat := by
  obtain ⟨-, hexact, hwithin⟩ := pool.selectWithGasBudget_scan hpos hmax heap maxTxs
  exact hexact.symm.trans_le (UInt64.le_iff_toNat_le.mp hwithin)

omit [MempoolTx Tx OrderingKey] [LinearOrder OrderingKey] in
theorem mem_of_chosen {byHash : TxId → Option Tx} {chosen : List (OrderedEntry OrderingKey)}
    {txs : List Tx} (h : List.Forall₂ (fun entry tx => byHash entry.hash = some tx) chosen txs)
    (hentry : entry ∈ chosen) {tx : Tx} (htx : byHash entry.hash = some tx) : tx ∈ txs := by
  induction h with
  | nil => cases hentry
  | cons hfirst _ ih =>
    rcases List.mem_cons.mp hentry with rfl | hentry
    · cases htx.symm.trans hfirst
      exact List.mem_cons_self
    · exact List.mem_cons_of_mem _ (ih hentry)

theorem mem_selectWithGasBudget (heap : BinaryHeap OrderingKey) (maxGas : UInt64) (maxTxs : Nat)
    (hentry : entry ∈ pool.byPriority) {tx : Tx} (htx : pool.byHash entry.hash = some tx)
    (hleft : tx ∉ (pool.selectWithGasBudget heap maxGas maxTxs).1.1) :
    entry ∈ (pool.selectWithGasBudget heap maxGas maxTxs).2.byPriority := by
  obtain ⟨taken, rest, entries, hperm, hentries, hselect, -⟩ :=
    pool.selectWithGasBudget_visits heap maxGas maxTxs
  obtain ⟨chosen, stale, htaken, hchosen, hstale⟩ :=
    Selection.foldl_visit pool.byHash maxGas taken
  rw [hselect] at hleft ⊢
  refine hentries.mem_iff.mpr (List.mem_append.mpr ?_)
  rcases List.mem_append.mp (hperm.mem_iff.mp hentry) with hvisited | hrest
  · refine .inl ?_
    rcases List.mem_append.mp (htaken.mem_iff.mp hvisited) with hgone | hskipped
    · rcases List.mem_append.mp hgone with hmem | hmem
      · exact absurd (mem_of_chosen hchosen hmem htx) hleft
      · cases htx.symm.trans (hstale entry hmem)
    · exact hskipped
  · exact .inr hrest

/-- From every pool in which no transaction has two entries, with any budget and count limit, a
selection is the scan over the transactions with an entry, in the order of their priority. -/
theorem selectWithGasBudget_greedy {pool : Mempool Tx OrderingKey}
    (hlive : ((pool.live pool.byPriority).map OrderedEntry.hash).Nodup) {maxGas : UInt64}
    (hpos : 0 < maxGas) (hmax : maxGas < u64Max) (heap : BinaryHeap OrderingKey) (maxTxs : Nat) :
    let selected := (pool.selectWithGasBudget heap maxGas maxTxs).1.1
    let totalGas := (pool.selectWithGasBudget heap maxGas maxTxs).1.2
    let after := (pool.selectWithGasBudget heap maxGas maxTxs).2
    (∃ order, order.Perm (pool.live pool.byPriority) ∧ (order.map OrderedEntry.hash).Nodup ∧
      (order.Pairwise fun a b => b.key ≤ a.key) ∧
      selected = greedyScan maxGas.toNat maxTxs [] (pool.txsOf order) ∧
      ∀ history, Reached history pool →
        (∀ tx tx' : Tx, MempoolTx.txId tx = MempoolTx.txId tx' →
          MempoolTx.orderingKey tx = MempoolTx.orderingKey tx') →
        (pool.txsOf order).Pairwise fun a b =>
          MempoolTx.orderingKey b ≤ MempoolTx.orderingKey a) ∧
      totalGas.toNat = gasOf selected ∧ totalGas ≤ maxGas ∧
      ∀ entry ∈ pool.byPriority, ∀ tx, pool.byHash entry.hash = some tx → tx ∉ selected →
        entry ∈ after.byPriority := by
  obtain ⟨hscan, hexact, hwithin⟩ := pool.selectWithGasBudget_scan hpos hmax heap maxTxs
  have hperm : (pool.live (pool.order heap)).Perm (pool.live pool.byPriority) :=
    (pool.order_perm heap).filter _
  have hsorted : (pool.order heap).Pairwise fun a b => b.key ≤ a.key :=
    Heap.drain_sorted heap le_rfl
  refine ⟨⟨pool.live (pool.order heap), hperm, (hperm.map _).nodup_iff.mpr hlive,
    hsorted.filter _, ?_, ?_⟩, hexact, hwithin, ?_⟩
  · rw [txsOf_live]
    exact hscan
  · intro history hreached hids
    rw [txsOf_live]
    refine List.pairwise_filterMap.mpr (hsorted.imp_of_mem ?_)
    intro a b ha hb hle tx htx tx' htx'
    rw [← key_eq_of_reached hreached hids ((pool.order_perm heap).mem_iff.mp ha) htx,
      ← key_eq_of_reached hreached hids ((pool.order_perm heap).mem_iff.mp hb) htx']
    exact hle
  · intro entry hentry tx htx hleft
    exact mem_selectWithGasBudget heap maxGas maxTxs hentry htx hleft

namespace TestGasTx

/-- A transaction that costs more than what the first one leaves of a budget of 50000. -/
def bulky : TestGasTx := { TestGasTx.new 2 50 0 alice with gasLimit := 30000 }

def cheap : TestGasTx := .new 3 10 0 alice

def sampler : Mempool TestGasTx GasPriceOrdering :=
  ((Mempool.new.insert cheap).insert bulky).insert first

end TestGasTx

open TestGasTx in
/-- The second transaction does not fit, the third does. -/
theorem selectWithGasBudget_greedy_sampler :
    (sampler.selectWithGasBudget heap 50000 0).1.1.map TestGasTx.id = [first.id, cheap.id] ∧
      (sampler.selectWithGasBudget heap 50000 0).1.2.toNat =
        gasOf (sampler.selectWithGasBudget heap 50000 0).1.1 ∧
      ∀ entry ∈ sampler.byPriority, ∀ tx, sampler.byHash entry.hash = some tx →
        tx ∉ (sampler.selectWithGasBudget heap 50000 0).1.1 →
          entry ∈ (sampler.selectWithGasBudget heap 50000 0).2.byPriority := by
  have hlive : ((sampler.live sampler.byPriority).map OrderedEntry.hash).Nodup := by
    decide +kernel
  have hpos : (0 : UInt64) < 50000 := by decide
  have hgreedy := selectWithGasBudget_greedy hlive hpos (by decide) heap 0
  exact ⟨by decide +kernel, hgreedy.2.1, hgreedy.2.2.2⟩

/-! ### The top entry -/

/-- The transactions with the highest priority, at most `limit` of them. -/
def select (heap : BinaryHeap OrderingKey) (limit : Nat) (pool : Mempool Tx OrderingKey) :
    List Tx × Mempool Tx OrderingKey :=
  let (entries, selected) := Heap.sweep heap (fun selected => selected.length < limit)
    (fun selected entry => match pool.byHash entry.hash with
      -- a stale entry
      | none => selected
      | some tx => selected ++ [tx])
    pool.byPriority.length pool.byPriority []
  (selected, { pool with byPriority := entries })

/-- The transaction of the entry that would be taken out next. -/
def peek (heap : BinaryHeap OrderingKey) (pool : Mempool Tx OrderingKey) : Option Tx :=
  match heap.pop pool.byPriority with
  | none => none
  | some (entry, _) => pool.byHash entry.hash

/-- `peek` returns what a selection of one transaction would return, up to ties in priority. -/
def PeekAgrees (heap : BinaryHeap OrderingKey) (pool : Mempool Tx OrderingKey) : Prop :=
  match pool.peek heap with
  | none => (pool.select heap 1).1 = []
  | some tx => ∃ tx', (pool.select heap 1).1 = [tx'] ∧
    MempoolTx.orderingKey tx' = MempoolTx.orderingKey tx

/-- The top entry is that of a transaction in the pool, or no entry is. -/
def TopLive (heap : BinaryHeap OrderingKey) (pool : Mempool Tx OrderingKey) : Prop :=
  (∀ entry ∈ pool.byPriority, pool.contains entry.hash = false) ∨
    ∃ top rest, heap.pop pool.byPriority = some (top, rest) ∧ pool.contains top.hash = true

omit [MempoolTx Tx OrderingKey] [LinearOrder OrderingKey] in
theorem visitWhile_select (limit : Nat) (pool : Mempool Tx OrderingKey)
    (order : List (OrderedEntry OrderingKey)) (selected : List Tx) :
    (Heap.visitWhile (fun selected => selected.length < limit)
      (fun selected entry => match pool.byHash entry.hash with
        | none => selected
        | some tx => selected ++ [tx]) order selected).2 =
      selected ++ (pool.txsOf order).take (limit - selected.length) := by
  induction order generalizing selected with
  | nil => simp [Heap.visitWhile, txsOf]
  | cons entry order ih =>
    unfold Heap.visitWhile
    by_cases hmore : selected.length < limit
    · rw [if_pos (by simpa using hmore), ih, txsOf_cons]
      cases pool.byHash entry.hash with
      | none => rfl
      | some tx =>
        rw [Option.toList_some, List.singleton_append, List.length_append, List.length_singleton,
          List.append_assoc, List.singleton_append, ← List.take_succ_cons]
        congr 2
        omega
    · rw [if_neg (by simpa using hmore), Nat.sub_eq_zero_of_le (Nat.not_lt.mp hmore),
        List.take_zero, List.append_nil]

omit [MempoolTx Tx OrderingKey] in
theorem select_eq_take (heap : BinaryHeap OrderingKey) (limit : Nat)
    (pool : Mempool Tx OrderingKey) :
    (pool.select heap limit).1 = (pool.txsOf (pool.order heap)).take limit := by
  have hsweep := (Heap.sweep_eq_visitWhile heap (fun selected : List Tx => selected.length < limit)
    (fun selected entry => match pool.byHash entry.hash with
      | none => selected
      | some tx => selected ++ [tx]) (le_refl pool.byPriority.length) []).1
  exact hsweep.trans (visitWhile_select limit pool _ [])

omit [MempoolTx Tx OrderingKey] in
theorem order_of_pop {heap : BinaryHeap OrderingKey} {top : OrderedEntry OrderingKey}
    {rest : List (OrderedEntry OrderingKey)} (h : heap.pop pool.byPriority = some (top, rest)) :
    ∃ others, pool.order heap = top :: others := by
  have hlength := (heap.perm h).length_eq
  rw [List.length_cons] at hlength
  unfold order
  rw [hlength, Heap.drain, h]
  exact ⟨_, rfl⟩

omit [MempoolTx Tx OrderingKey] in
theorem select_one_eq_nil_iff (heap : BinaryHeap OrderingKey) (pool : Mempool Tx OrderingKey) :
    (pool.select heap 1).1 = [] ↔ ∀ entry ∈ pool.byPriority, pool.contains entry.hash = false := by
  rw [select_eq_take, List.take_eq_nil_iff, or_iff_right one_ne_zero, txsOf,
    List.filterMap_eq_nil_iff]
  simp only [(pool.order_perm heap).mem_iff, contains, Option.isSome_eq_false_iff,
    Option.isNone_iff_eq_none]

/-- In every pool, `peek` agrees with a selection of one transaction if and only if the top entry is
not stale while others are live. -/
theorem peekAgrees_iff (heap : BinaryHeap OrderingKey) (pool : Mempool Tx OrderingKey) :
    pool.PeekAgrees heap ↔ pool.TopLive heap := by
  unfold PeekAgrees TopLive peek
  cases hpop : heap.pop pool.byPriority with
  | none =>
    dsimp only
    rw [select_one_eq_nil_iff]
    simp
  | some popped =>
    obtain ⟨top, rest⟩ := popped
    obtain ⟨others, horder⟩ := order_of_pop hpop
    dsimp only
    cases htop : pool.byHash top.hash with
    | none =>
      dsimp only
      rw [select_one_eq_nil_iff]
      refine ⟨.inl, fun h => h.resolve_right ?_⟩
      rintro ⟨_, _, ⟨⟩, hcontains⟩
      rw [contains, htop] at hcontains
      cases hcontains
    | some tx =>
      refine ⟨fun _ => .inr ⟨top, rest, rfl, Option.isSome_iff_exists.mpr ⟨tx, htop⟩⟩,
        fun _ => ⟨tx, ?_, rfl⟩⟩
      rw [select_eq_take, horder, txsOf_cons, htop]
      rfl

open TestGasTx in
/-- The transaction with the highest priority has been removed: `peek` returns nothing, and a
selection returns the next one. -/
theorem removed_not_peekAgrees :
    ∃ pool : Mempool TestGasTx GasPriceOrdering,
      Reached [(.remove first.id, []), (.add first, []), (.add cheap, [])] pool ∧
      pool.peek heap = none ∧ (pool.select heap 1).1 = [cheap] ∧ ¬ pool.PeekAgrees heap := by
  let pool : Mempool TestGasTx GasPriceOrdering :=
    (((Mempool.new.insert cheap).insert first).remove first.id).2
  have hrun : Reached [(.remove first.id, []), (.add first, []), (.add cheap, [])] pool :=
    .step (.step (.step .empty trivial rfl) trivial rfl) trivial rfl
  have hpeek : pool.peek heap = none := rfl
  have hselect : (pool.select heap 1).1 = [cheap] := rfl
  refine ⟨pool, hrun, hpeek, hselect, fun h => ?_⟩
  unfold PeekAgrees at h
  rw [hpeek, hselect] at h
  cases h

end Mempool

end Evolve
