import Mathlib
import Evolve.Stf.FailedTx

/-! The loop over the transactions of a block: which transactions are executed, how many are
counted as skipped, and how much gas they use. -/

namespace Evolve

open Machine Borsh Effects

/-! ### The gas of a transaction -/

theorem charged_stepRule : StepRule fun w w' => w.gasCounter.Charged w'.gasCounter where
  refl w := .refl w.gasCounter
  trans _ _ _ h₁ h₂ := h₁.trans h₂
  storage w _ _ := .refl w.gasCounter
  charge _ _ h := h
  note w _ := .refl w.gasCounter
  rollback _ _ _ h := h

theorem GasCounter.Charged.gasUsed_le {limit : UInt64} {config : StorageGasConfig}
    {c : GasCounter} (h : Charged (.finite limit 0 config) c) :
    c.gasUsed.toNat ≤ limit.toNat := by
  cases h with
  | finite _ within => exact within (Nat.zero_le _)

namespace Stf

variable {Tx Block : Type} [Transaction Tx]
variable {host : Host} {fuel : Nat} {stf : Stf Tx Block}

variable {r : SdkResult TxResult}

theorem meteredTx_done {tx : Tx} {block : BlockContext} {w w' : World}
    (h : meteredTx host fuel stf tx block w = .done (r, w')) :
    ∃ result, r = .ok result ∧ result.gasUsed = w'.gasCounter.gasUsed := by
  rcases Exec.bind_done.mp h with ⟨admitted, w₁, hadmitted, h⟩ | ⟨_, hadmitted, -⟩
  · cases admitted with
    | error e =>
      cases h
      exact ⟨_, rfl, rfl⟩
    | ok sender =>
      rcases Exec.bind_done.mp h with ⟨response, w₂, -, h⟩ | ⟨_, hexec, -⟩
      · cases h
        exact ⟨_, rfl, rfl⟩
      · obtain ⟨_, _, ⟨⟩⟩ := Exec.attempt_done.mp hexec
  · obtain ⟨_, _, ⟨⟩⟩ := Exec.attempt_done.mp hadmitted

theorem applyTx_done {tx : Tx} {block : BlockContext} {w w' : World}
    (h : applyTx host fuel stf tx block w = .done (r, w')) : ∃ result, r = .ok result :=
  (meteredTx_done (w := stf.metered tx w) h).imp fun _ => And.left

theorem applyTx_gasUsed_le {tx : Tx} {block : BlockContext} {w w' : World} {result : TxResult}
    (h : applyTx host fuel stf tx block w = .done (.ok result, w')) :
    result.gasUsed.toNat ≤ (Transaction.gasLimit tx).toNat := by
  have hmetered : meteredTx host fuel stf tx block (stf.metered tx w) = .done (.ok result, w') := h
  have hkeeps : Exec.Keeps (fun w w' => w.gasCounter.Charged w'.gasCounter)
      (meteredTx host fuel stf tx block) :=
    keeps_meteredTx fuel (charged_stepRule.callRule host) (fun w => .refl w.gasCounter) tx block
  have hcharged := Exec.wp_done (hkeeps (stf.metered tx w)) hmetered
  obtain ⟨_, ⟨⟩, hused⟩ := meteredTx_done hmetered
  rw [hused]
  exact hcharged.gasUsed_le

/-! ### Runs of the loop -/

variable (host fuel stf) in
/-- The runs of the loop over transactions, from one progress and world to another. -/
inductive Loop (block : BlockContext) (limit : UInt64) (total : Nat) :
    List Tx → Progress Tx → World → Progress Tx → World → Prop
  | nil (p : Progress Tx) (w : World) : Loop block limit total [] p w p w
  | skipped {tx : Tx} {txs : List Tx} {p q : Progress Tx} {w w' : World}
      (exceeds : saturatingAdd p.cumulativeGas (Transaction.gasLimit tx) > limit)
      (rest : Loop block limit total txs p.skip w q w') :
      Loop block limit total (tx :: txs) p w q w'
  | last {tx : Tx} {txs : List Tx} {p : Progress Tx} {result : TxResult} {w w₁ : World}
      (fits : ¬ saturatingAdd p.cumulativeGas (Transaction.gasLimit tx) > limit)
      (run : applyTx host fuel stf tx block w = .done (.ok result, w₁))
      (full : (p.push tx result).cumulativeGas ≥ limit) :
      Loop block limit total (tx :: txs) p w ((p.push tx result).stop total) w₁
  | executed {tx : Tx} {txs : List Tx} {p q : Progress Tx} {result : TxResult} {w w₁ w' : World}
      (fits : ¬ saturatingAdd p.cumulativeGas (Transaction.gasLimit tx) > limit)
      (run : applyTx host fuel stf tx block w = .done (.ok result, w₁))
      (room : ¬ (p.push tx result).cumulativeGas ≥ limit)
      (rest : Loop block limit total txs (p.push tx result) w₁ q w') :
      Loop block limit total (tx :: txs) p w q w'

theorem applyTxs_loop {block : BlockContext} {limit : UInt64} {total : Nat} {txs : List Tx}
    {p : Progress Tx} {w w' : World} {r : SdkResult (Progress Tx)}
    (h : applyTxs host fuel stf block limit total txs p w = .done (r, w')) :
    ∃ q, r = .ok q ∧ Loop host fuel stf block limit total txs p w q w' := by
  induction txs generalizing p w with
  | nil =>
    cases h
    exact ⟨p, rfl, .nil p _⟩
  | cons tx txs ih =>
    unfold applyTxs at h
    split at h
    · rename_i exceeds
      obtain ⟨q, rfl, hloop⟩ := ih h
      exact ⟨q, rfl, .skipped exceeds hloop⟩
    · rename_i fits
      rcases Exec.bind_done.mp h with ⟨result, w₁, happly, h⟩ | ⟨e, happly, -⟩
      · split at h
        · rename_i full
          cases h
          exact ⟨_, rfl, .last fits happly full⟩
        · rename_i room
          obtain ⟨q, rfl, hloop⟩ := ih h
          exact ⟨q, rfl, .executed fits happly room hloop⟩
      · obtain ⟨_, ⟨⟩⟩ := applyTx_done happly

theorem applyBlock_loop [BlockTrait Block Tx] {block : Block} {w w' : World} {result : BlockResult}
    {executed : List Tx}
    (h : applyBlock host fuel stf block w = .done (.ok (result, executed), w')) :
    ∃ events w₁ q w₂, doBeginBlock host fuel stf block w = .done (.ok events, w₁) ∧
      Loop host fuel stf (BlockTrait.context block) (BlockTrait.gasLimit block)
        (BlockTrait.txs block).length (BlockTrait.txs block) .start w₁ q w₂ ∧
      result.txResults = q.txResults ∧ result.gasUsed = q.cumulativeGas ∧
      result.txsSkipped = q.txsSkipped ∧ executed = q.executed := by
  rcases Exec.bind_done.mp h with ⟨events, w₁, hbegin, h⟩ | ⟨_, _, ⟨⟩⟩
  rcases Exec.bind_done.mp h with ⟨q, w₂, htxs, h⟩ | ⟨_, _, ⟨⟩⟩
  rcases Exec.bind_done.mp h with ⟨_, w₃, _, h⟩ | ⟨_, _, ⟨⟩⟩
  obtain ⟨_, ⟨⟩, hloop⟩ := applyTxs_loop htxs
  cases h
  exact ⟨events, w₁, q, w₂, hbegin, hloop, rfl, rfl, rfl, rfl⟩

theorem hook_done {α : Type} {hook : Run α} {w w' : World} {r : SdkResult (List Event)}
    (h : (do
      Run.meter .infinite
      let _ ← Exec.attempt hook
      Run.popEvents : Run (List Event)) w = .done (r, w')) : ∃ events, r = .ok events := by
  rcases Exec.bind_done.mp h with ⟨_, _, -, h⟩ | ⟨_, ⟨⟩, -⟩
  rcases Exec.bind_done.mp h with ⟨_, _, -, h⟩ | ⟨_, hattempt, -⟩
  · cases h
    exact ⟨_, rfl⟩
  · obtain ⟨_, _, ⟨⟩⟩ := Exec.attempt_done.mp hattempt

theorem applyBlock_done [BlockTrait Block Tx] {block : Block} {w w' : World}
    {r : SdkResult (BlockResult × List Tx)}
    (h : applyBlock host fuel stf block w = .done (r, w')) : ∃ p, r = .ok p := by
  rcases Exec.bind_done.mp h with ⟨_, _, -, h⟩ | ⟨_, hbegin, -⟩
  · rcases Exec.bind_done.mp h with ⟨_, _, -, h⟩ | ⟨_, htxs, -⟩
    · rcases Exec.bind_done.mp h with ⟨_, _, -, h⟩ | ⟨_, hend, -⟩
      · cases h
        exact ⟨_, rfl⟩
      · obtain ⟨_, ⟨⟩⟩ := hook_done hend
    · obtain ⟨_, ⟨⟩, -⟩ := applyTxs_loop htxs
  · obtain ⟨_, ⟨⟩⟩ := hook_done hbegin

/-! ### Gas -/

namespace Loop

variable {block : BlockContext} {limit : UInt64} {total : Nat} {txs : List Tx}
  {p q : Progress Tx} {w w' : World}

/-- What is known of the gas at every point of the loop. -/
structure GasInvariant (limit : UInt64) (p : Progress Tx) : Prop where
  perTx : List.Forall₂ (fun tx (result : TxResult) =>
    result.gasUsed.toNat ≤ (Transaction.gasLimit tx).toNat) p.executed p.txResults
  sum : p.cumulativeGas.toNat = (p.txResults.map fun result => result.gasUsed.toNat).sum
  within : p.cumulativeGas.toNat ≤ limit.toNat

theorem GasInvariant.push {tx : Tx} {result : TxResult} (hlimit : limit < u64Max)
    (h : GasInvariant limit p)
    (fits : ¬ saturatingAdd p.cumulativeGas (Transaction.gasLimit tx) > limit)
    (hgas : result.gasUsed.toNat ≤ (Transaction.gasLimit tx).toNat) :
    GasInvariant limit (p.push tx result) := by
  have hmax : limit.toNat < 2 ^ 64 - 1 := UInt64.lt_iff_toNat_lt.mp hlimit
  have hle := UInt64.le_iff_toNat_le.mp (UInt64.not_lt.mp fits)
  rw [toNat_saturatingAdd_of_lt hmax (UInt64.not_lt.mp fits)] at hle
  have hcumulative : (p.push tx result).cumulativeGas.toNat =
      p.cumulativeGas.toNat + result.gasUsed.toNat := by
    rw [Progress.push, toNat_saturatingAdd]
    omega
  refine ⟨?_, ?_, by omega⟩
  · exact List.rel_append h.perTx (.cons hgas .nil)
  · rw [hcumulative, h.sum]
    simp [Progress.push]

theorem gas_invariant (hlimit : limit < u64Max)
    (h : Loop host fuel stf block limit total txs p w q w') (hp : GasInvariant limit p) :
    GasInvariant limit q := by
  induction h with
  | nil p w => exact hp
  | skipped exceeds rest ih => exact ih ⟨hp.perTx, hp.sum, hp.within⟩
  | last fits run full =>
    have hpush := hp.push hlimit fits (applyTx_gasUsed_le run)
    exact ⟨hpush.perTx, hpush.sum, hpush.within⟩
  | executed fits run room rest ih => exact ih (hp.push hlimit fits (applyTx_gasUsed_le run))

/-! ### Counting -/

theorem executed_sublist (h : Loop host fuel stf block limit total txs p w q w') :
    ∃ more, q.executed = p.executed ++ more ∧ more.Sublist txs := by
  induction h with
  | nil p w => exact ⟨[], by simp, .slnil⟩
  | skipped exceeds rest ih =>
    obtain ⟨more, hmore, hsub⟩ := ih
    exact ⟨more, hmore, hsub.cons _⟩
  | @last tx txs p result w w₁ fits run full => exact ⟨[tx], rfl, by simp⟩
  | @executed tx txs p q result w w₁ w' fits run room rest ih =>
    obtain ⟨more, hmore, hsub⟩ := ih
    refine ⟨tx :: more, ?_, hsub.cons_cons tx⟩
    rw [hmore, Progress.push, List.append_assoc, List.singleton_append]

/-- Where the gas limits fit in what is left together, only transactions at the end with gas limit
zero are skipped. -/
theorem executed_of_sum_le (h : Loop host fuel stf block limit total txs p w q w')
    (hsum : p.cumulativeGas.toNat + (txs.map fun tx => (Transaction.gasLimit tx).toNat).sum ≤
      limit.toNat) :
    ∃ done rest, txs = done ++ rest ∧ q.executed = p.executed ++ done ∧
      ∀ tx ∈ rest, Transaction.gasLimit tx = 0 := by
  have hpush : ∀ {tx : Tx} {txs : List Tx} {p : Progress Tx} {result : TxResult} {w w₁ : World},
      applyTx host fuel stf tx block w = .done (.ok result, w₁) →
      p.cumulativeGas.toNat +
        ((tx :: txs).map fun tx => (Transaction.gasLimit tx).toNat).sum ≤ limit.toNat →
      (p.push tx result).cumulativeGas.toNat +
        (txs.map fun tx => (Transaction.gasLimit tx).toNat).sum ≤ limit.toNat := by
    intro tx txs p result w w₁ hrun hsum
    have hgas := applyTx_gasUsed_le hrun
    rw [List.map_cons, List.sum_cons] at hsum
    rw [Progress.push, toNat_saturatingAdd]
    omega
  induction h with
  | nil p w => exact ⟨[], [], rfl, by simp, by simp⟩
  | @skipped tx txs p q w w' exceeds rest ih =>
    have hlt := UInt64.lt_iff_toNat_lt.mp exceeds
    rw [toNat_saturatingAdd] at hlt
    rw [List.map_cons, List.sum_cons] at hsum
    omega
  | @last tx txs p result w w₁ fits run full =>
    refine ⟨[tx], txs, rfl, rfl, fun later hlater => ?_⟩
    have hleft := hpush run hsum
    have hfull := UInt64.le_iff_toNat_le.mp full
    have hle := List.single_le_sum (fun _ _ => Nat.zero_le _) _
      (List.mem_map_of_mem (f := fun tx : Tx => (Transaction.gasLimit tx).toNat) hlater)
    refine UInt64.toNat_inj.mp (Nat.eq_zero_of_le_zero ?_)
    omega
  | @executed tx txs p q result w w₁ w' fits run room rest ih =>
    obtain ⟨done, later, hsplit, hexecuted, hzero⟩ := ih (hpush run hsum)
    refine ⟨tx :: done, later, by rw [hsplit, List.cons_append], ?_, hzero⟩
    rw [hexecuted, Progress.push, List.append_assoc, List.singleton_append]

theorem length_executed (h : Loop host fuel stf block limit total txs p w q w')
    (hp : p.executed.length = p.txResults.length) : q.executed.length = q.txResults.length := by
  induction h with
  | nil p w => exact hp
  | skipped exceeds rest ih => exact ih hp
  | last fits run full => simpa [Progress.push, Progress.stop] using hp
  | executed fits run room rest ih => exact ih (by simpa [Progress.push] using hp)

end Loop

theorem applyBlock_executed_sublist [BlockTrait Block Tx] {block : Block} {w w' : World}
    {result : BlockResult} {executed : List Tx}
    (h : applyBlock host fuel stf block w = .done (.ok (result, executed), w')) :
    executed.Sublist (BlockTrait.txs block) := by
  obtain ⟨_, _, _, _, -, hloop, -, -, -, rfl⟩ := applyBlock_loop h
  obtain ⟨_, hmore, hsub⟩ := hloop.executed_sublist
  rwa [hmore]

variable (host fuel stf) in
/-- The transaction that uses up the gas of the block, if there is one, is reached before any
transaction is skipped.  `skipped` lists those that were skipped so far. -/
def StopsBeforeSkips (block : BlockContext) (limit : UInt64) :
    (skipped txs : List Tx) → Progress Tx → World → Prop
  | _, [], _, _ => True
  | skipped, tx :: txs, p, w =>
    if saturatingAdd p.cumulativeGas (Transaction.gasLimit tx) > limit then
      StopsBeforeSkips block limit (tx :: skipped) txs p.skip w
    else ∀ result w', applyTx host fuel stf tx block w = .done (.ok result, w') →
      if (p.push tx result).cumulativeGas ≥ limit then skipped = []
      else StopsBeforeSkips block limit skipped txs (p.push tx result) w'

/-- From a progress that has counted every transaction so far once, the loop counts every
transaction once exactly if it stops before any is skipped. -/
theorem Loop.count_iff {block : BlockContext} {limit : UInt64} {total : Nat}
    {txs skipped : List Tx} {p q : Progress Tx} {w w' : World}
    (h : Loop host fuel stf block limit total txs p w q w')
    (hskipped : p.txsSkipped = skipped.length)
    (hp : p.txResults.length + p.txsSkipped + txs.length = total) :
    q.txResults.length + q.txsSkipped = total ↔
      StopsBeforeSkips host fuel stf block limit skipped txs p w := by
  induction h generalizing skipped with
  | nil p w => simpa [StopsBeforeSkips] using hp
  | skipped exceeds rest ih =>
    rw [StopsBeforeSkips, if_pos exceeds]
    refine ih (congrArg (· + 1) hskipped) ?_
    simp only [Progress.skip, List.length_cons] at hp ⊢
    omega
  | @last tx txs p result w w₁ fits run full =>
    rw [StopsBeforeSkips, if_neg fits, Exec.forall_ok_iff run, if_pos full,
      ← List.length_eq_zero_iff, ← hskipped]
    simp only [Progress.push, Progress.stop, List.length_append, List.length_cons,
      List.length_nil] at hp ⊢
    omega
  | @executed tx txs p q result w w₁ w' fits run room rest ih =>
    rw [StopsBeforeSkips, if_neg fits, Exec.forall_ok_iff run, if_neg room]
    refine ih hskipped ?_
    simp only [Progress.push, List.length_append, List.length_cons, List.length_nil] at hp ⊢
    omega

/-! ### Prefixes -/

variable (host fuel stf) in
/-- From the first transaction that does not fit, none fits. -/
def ExecutesPrefix (block : BlockContext) (limit : UInt64) : List Tx → Progress Tx → World → Prop
  | [], _, _ => True
  | tx :: txs, p, w =>
    if saturatingAdd p.cumulativeGas (Transaction.gasLimit tx) > limit then
      ∀ later ∈ txs, saturatingAdd p.cumulativeGas (Transaction.gasLimit later) > limit
    else ∀ result w', applyTx host fuel stf tx block w = .done (.ok result, w') →
      ¬ (p.push tx result).cumulativeGas ≥ limit →
        ExecutesPrefix block limit txs (p.push tx result) w'

theorem Progress.fits_of_push {p : Progress Tx} {tx tx' : Tx} {result : TxResult} {limit : UInt64}
    (h : ¬ saturatingAdd (p.push tx result).cumulativeGas (Transaction.gasLimit tx') > limit) :
    ¬ saturatingAdd p.cumulativeGas (Transaction.gasLimit tx') > limit := by
  rw [gt_iff_lt, UInt64.lt_iff_toNat_lt, toNat_saturatingAdd] at h ⊢
  have hpush : p.cumulativeGas.toNat ≤ (p.push tx result).cumulativeGas.toNat := by
    have hlt := p.cumulativeGas.toNat_lt
    rw [Progress.push, toNat_saturatingAdd]
    omega
  omega

theorem Loop.executed_fits {block : BlockContext} {limit : UInt64} {total : Nat} {txs : List Tx}
    {p q : Progress Tx} {w w' : World} (h : Loop host fuel stf block limit total txs p w q w') :
    ∃ more, q.executed = p.executed ++ more ∧
      ∀ tx ∈ more, ¬ saturatingAdd p.cumulativeGas (Transaction.gasLimit tx) > limit := by
  induction h with
  | nil p w => exact ⟨[], by simp, by simp⟩
  | skipped exceeds rest ih => exact ih
  | @last tx txs p result w w₁ fits run full => exact ⟨[tx], rfl, by simpa using fits⟩
  | @executed tx txs p q result w w₁ w' fits run room rest ih =>
    obtain ⟨more, hmore, hfits⟩ := ih
    refine ⟨tx :: more, ?_, ?_⟩
    · rw [hmore, Progress.push, List.append_assoc, List.singleton_append]
    · intro tx' htx'
      rcases List.mem_cons.mp htx' with rfl | htx'
      · exact fits
      · exact Progress.fits_of_push (hfits tx' htx')

theorem Loop.executed_eq_iff {block : BlockContext} {limit : UInt64} {total : Nat}
    {txs : List Tx} {p q : Progress Tx} {w w' : World}
    (h : Loop host fuel stf block limit total txs p w q w') :
    q.executed = p.executed ↔
      ∀ tx ∈ txs, saturatingAdd p.cumulativeGas (Transaction.gasLimit tx) > limit := by
  induction h with
  | nil p w => simp
  | skipped exceeds rest ih =>
    rw [List.forall_mem_cons]
    exact ih.trans (and_iff_right exceeds).symm
  | @last tx txs p result w w₁ fits run full =>
    rw [List.forall_mem_cons]
    refine iff_of_false ?_ (fun hall => fits hall.1)
    simp [Progress.push, Progress.stop]
  | @executed tx txs p q result w w₁ w' fits run room rest ih =>
    rw [List.forall_mem_cons]
    refine iff_of_false ?_ (fun hall => fits hall.1)
    obtain ⟨more, hmore, -⟩ := rest.executed_fits
    rw [hmore]
    simp [Progress.push]

/-- The executed transactions are the first ones of the block exactly if none fits after one that
does not. -/
theorem Loop.executesPrefix_iff {block : BlockContext} {limit : UInt64} {total : Nat}
    {txs : List Tx} {p q : Progress Tx} {w w' : World}
    (h : Loop host fuel stf block limit total txs p w q w') :
    q.executed <+: p.executed ++ txs ↔ ExecutesPrefix host fuel stf block limit txs p w := by
  induction h with
  | nil p w => simp [ExecutesPrefix]
  | @skipped tx txs p q w w' exceeds rest ih =>
    rw [ExecutesPrefix, if_pos exceeds]
    refine Iff.trans ?_ rest.executed_eq_iff
    obtain ⟨more, hmore, hfits⟩ := rest.executed_fits
    replace hmore : q.executed = p.executed ++ more := hmore
    rw [hmore, List.prefix_append_right_inj]
    -- The skipped transaction stays too big, so it is not the first executed one.
    cases more with
    | nil => simp [Progress.skip]
    | cons first more =>
      refine iff_of_false ?_ (by simp [Progress.skip])
      intro hstarts
      obtain rfl : first = tx := (List.cons_prefix_cons.mp hstarts).1
      exact hfits first (by simp) exceeds
  | @last tx txs p result w w₁ fits run full =>
    rw [ExecutesPrefix, if_neg fits, Exec.forall_ok_iff run]
    refine iff_of_true ?_ (fun hroom => (hroom full).elim)
    rw [Progress.stop, Progress.push, List.prefix_append_right_inj, List.cons_prefix_cons]
    exact ⟨rfl, List.nil_prefix⟩
  | @executed tx txs p q result w w₁ w' fits run room rest ih =>
    rw [ExecutesPrefix, if_neg fits, Exec.forall_ok_iff run]
    have hpush : (p.push tx result).executed ++ txs = p.executed ++ tx :: txs := by
      simp [Progress.push]
    rw [← hpush, ih]
    exact ⟨fun h _ => h, fun h => h room⟩

section

variable [BlockTrait Block Tx] {block : Block} {w w' : World} {result : BlockResult}
  {executed : List Tx}

variable (host fuel stf) in
/-- After the begin block hook, the first transaction that does not fit is followed by none that
fits. -/
structure SkipsAtEnd (block : Block) (w : World) : Prop where
  afterBegin : ∀ events w₁, doBeginBlock host fuel stf block w = .done (.ok events, w₁) →
    ExecutesPrefix host fuel stf (BlockTrait.context block) (BlockTrait.gasLimit block)
      (BlockTrait.txs block) .start w₁

/-- As many transactions from the first on as there are results are the executed ones if and only if
transactions are skipped only at the end. -/
theorem applyBlock_executed_eq_take_iff
    (h : applyBlock host fuel stf block w = .done (.ok (result, executed), w')) :
    executed = (BlockTrait.txs block).take result.txResults.length ↔
      SkipsAtEnd host fuel stf block w := by
  obtain ⟨events, w₁, q, w₂, hbegin, hloop, hresults, -, -, rfl⟩ := applyBlock_loop h
  have hlength : q.executed.length = result.txResults.length := by
    rw [hresults]
    exact hloop.length_executed rfl
  rw [← hlength, ← List.prefix_iff_eq_take]
  refine hloop.executesPrefix_iff.trans ⟨fun h => ⟨fun _ _ hbegin' => ?_⟩, fun h => ?_⟩
  · cases hbegin.symm.trans hbegin'
    exact h
  · exact h.afterBegin _ _ hbegin

end

/-! ### Results about blocks -/

section

variable [BlockTrait Block Tx] {block : Block} {w w' : World} {result : BlockResult}
  {executed : List Tx}

/-- In every block with a gas limit below the largest word, no transaction uses more gas than its
limit, the gas of the block is the sum of the gas of its transactions, and it is within the limit
of the block. -/
theorem applyBlock_gas (hlimit : BlockTrait.gasLimit block < u64Max)
    (hrun : applyBlock host fuel stf block w = .done (.ok (result, executed), w')) :
    executed.Sublist (BlockTrait.txs block) ∧
      List.Forall₂ (fun tx (txResult : TxResult) =>
        txResult.gasUsed.toNat ≤ (Transaction.gasLimit tx).toNat) executed result.txResults ∧
      result.gasUsed.toNat = (result.txResults.map fun txResult => txResult.gasUsed.toNat).sum ∧
      result.gasUsed.toNat ≤ (BlockTrait.gasLimit block).toNat := by
  have hsub := applyBlock_executed_sublist hrun
  obtain ⟨_, w₁, q, w₂, -, hloop, hresults, hgas, -, rfl⟩ := applyBlock_loop hrun
  have hinv := hloop.gas_invariant hlimit ⟨.nil, rfl, Nat.zero_le _⟩
  rw [hresults, hgas]
  exact ⟨hsub, hinv.perTx, hinv.sum, hinv.within⟩

end

def recordingTx (gasLimit : UInt64) : TestTx := { sampleTx (.fromU64 10) with gasLimit }

/-- A block in which the second transaction does not fit and the third uses up the gas. -/
def tightBlock : TestBlock := ⟨⟨1, 0⟩, [recordingTx 700, recordingTx 400, recordingTx 370], 740⟩

theorem tightBlock_ends :
    Exec.Ends (applyBlock sampleHost 3 testStf tightBlock)
      (fun r _ => (r.map fun p => (p.1.txResults.map TxResult.gasUsed, p.1.txsSkipped)) =
        .ok ([370, 370], 2)) sampleWorld := by
  decide +kernel

theorem applyBlock_gas_tightBlock :
    ∃ result executed w', applyBlock sampleHost 3 testStf tightBlock sampleWorld =
        .done (.ok (result, executed), w') ∧
      result.txResults.map TxResult.gasUsed = [370, 370] ∧
      result.gasUsed.toNat = (result.txResults.map fun r => r.gasUsed.toNat).sum ∧
      result.gasUsed.toNat ≤ 740 := by
  obtain ⟨r, w', hrun, hr⟩ := tightBlock_ends.exists
  cases r with
  | error e => cases hr
  | ok p =>
    have hgas := applyBlock_gas (by decide) hrun
    exact ⟨p.1, p.2, w', hrun, congrArg Prod.fst (Except.ok.inj hr), hgas.2.2⟩

section

variable [BlockTrait Block Tx] {block : Block} {w w' : World} {result : BlockResult}
  {executed : List Tx}

/-- The executed transactions are a subsequence of the block's, one for each result, and results
and skipped transactions add up to the transactions of the block if and only if the transaction
that uses up the gas of the block comes before any that is skipped. -/
theorem applyBlock_count_iff {events : List Event} {w₁ : World}
    (hbegin : doBeginBlock host fuel stf block w = .done (.ok events, w₁))
    (hrun : applyBlock host fuel stf block w = .done (.ok (result, executed), w')) :
    (executed.Sublist (BlockTrait.txs block) ∧ executed.length = result.txResults.length) ∧
      (result.txResults.length + result.txsSkipped = (BlockTrait.txs block).length ↔
        StopsBeforeSkips host fuel stf (BlockTrait.context block) (BlockTrait.gasLimit block)
          [] (BlockTrait.txs block) .start w₁) := by
  have hsub := applyBlock_executed_sublist hrun
  obtain ⟨_, _, q, w₂, hbegin', hloop, hresults, -, hskipped, rfl⟩ := applyBlock_loop hrun
  cases hbegin.symm.trans hbegin'
  rw [hresults, hskipped]
  exact ⟨⟨hsub, hloop.length_executed rfl⟩, hloop.count_iff rfl (by simp [Progress.start])⟩

end

/-- A block in which the second transaction uses up the gas and the third is not reached. -/
def fullBlock : TestBlock := ⟨⟨1, 0⟩, [recordingTx 700, recordingTx 370, recordingTx 400], 740⟩

theorem gasUsed_of_toOption {gas : UInt64} (h : r.toOption.map TxResult.gasUsed = some gas) :
    ∃ result, r = .ok result ∧ result.gasUsed = gas := by
  cases r with
  | error e => cases h
  | ok result => exact ⟨result, rfl, Option.some.inj h⟩

theorem fullBlock_begins :
    Exec.Ends (doBeginBlock sampleHost 3 testStf fullBlock) (fun r w₁ => r = .ok [] ∧
      Exec.Ends (applyTx sampleHost 3 testStf (recordingTx 700) ⟨1, 0⟩) (fun r w₂ =>
        r.toOption.map TxResult.gasUsed = some 370 ∧
        Exec.Ends (applyTx sampleHost 3 testStf (recordingTx 370) ⟨1, 0⟩) (fun r _ =>
          r.toOption.map TxResult.gasUsed = some 370) w₂) w₁) sampleWorld := by
  decide +kernel

theorem fullBlock_ends :
    Exec.Ends (applyBlock sampleHost 3 testStf fullBlock) (fun r _ => r.toOption.isSome)
      sampleWorld := by
  decide +kernel

theorem fullBlock_stopsBeforeSkips :
    ∃ w₁, doBeginBlock sampleHost 3 testStf fullBlock sampleWorld = .done (.ok [], w₁) ∧
      StopsBeforeSkips sampleHost 3 testStf ⟨1, 0⟩ 740 [] fullBlock.txs .start w₁ := by
  obtain ⟨_, w₁, hbegin, rfl, hfirst⟩ := fullBlock_begins.exists
  obtain ⟨r₁, w₂, hrun₁, hused₁, hsecond⟩ := hfirst.exists
  obtain ⟨r₂, w₃, hrun₂, hused₂⟩ := hsecond.exists
  obtain ⟨result₁, rfl, hgas₁⟩ := gasUsed_of_toOption hused₁
  obtain ⟨result₂, rfl, hgas₂⟩ := gasUsed_of_toOption hused₂
  have hpush₁ : (Progress.start.push (recordingTx 700) result₁).cumulativeGas = 370 := by
    rw [Progress.push, hgas₁]
    rfl
  refine ⟨w₁, hbegin, ?_⟩
  rw [fullBlock, StopsBeforeSkips, if_neg (by decide), Exec.forall_ok_iff hrun₁,
    if_neg (by rw [hpush₁]; decide), StopsBeforeSkips, if_neg (by rw [hpush₁]; decide),
    Exec.forall_ok_iff hrun₂, if_pos]
  show saturatingAdd _ _ ≥ _
  rw [hpush₁, hgas₂]
  decide

theorem applyBlock_count_iff_fullBlock :
    ∃ result executed w', applyBlock sampleHost 3 testStf fullBlock sampleWorld =
        .done (.ok (result, executed), w') ∧
      result.txResults.length + result.txsSkipped = 3 := by
  obtain ⟨w₁, hbegin, hstops⟩ := fullBlock_stopsBeforeSkips
  obtain ⟨r, w', hrun, hr⟩ := fullBlock_ends.exists
  cases r with
  | error e => cases hr
  | ok p =>
    have hcount := (applyBlock_count_iff hbegin hrun).2.mpr hstops
    exact ⟨p.1, p.2, w', hrun, hcount⟩

/-- Two of the three transactions of the tight block are executed, and two are counted as
skipped. -/
theorem applyBlock_counts_skipped_twice :
    ∃ result executed w', applyBlock sampleHost 3 testStf tightBlock sampleWorld =
        .done (.ok (result, executed), w') ∧
      result.txResults.length = 2 ∧ result.txsSkipped = 2 ∧ tightBlock.txs.length = 3 := by
  obtain ⟨r, w', hrun, hr⟩ := tightBlock_ends.exists
  cases r with
  | error e => cases hr
  | ok p =>
    obtain ⟨hresults, hskipped⟩ := Prod.mk.inj (Except.ok.inj hr)
    refine ⟨p.1, p.2, w', hrun, ?_, hskipped, rfl⟩
    rw [← List.length_map (f := TxResult.gasUsed), hresults]
    rfl

/-! ### Without the skipped transactions -/

/-- The loop over the transactions that were executed goes the same way. -/
theorem Loop.without_skipped {block : BlockContext} {limit : UInt64} {total : Nat} {txs : List Tx}
    {p q : Progress Tx} {w w' : World} (h : Loop host fuel stf block limit total txs p w q w') :
    ∃ more, q.executed = p.executed ++ more ∧
      applyTxs host fuel stf block limit (p.txResults.length + more.length) more
        { p with txsSkipped := 0 } w = .done (.ok { q with txsSkipped := 0 }, w') := by
  induction h with
  | nil p w => exact ⟨[], by simp, rfl⟩
  | skipped exceeds rest ih => exact ih
  | @last tx txs p result w w₁ fits run full =>
    refine ⟨[tx], rfl, ?_⟩
    rw [applyTxs, if_neg fits, Exec.bind_apply, run]
    refine (congrFun (if_pos full) w₁).trans ?_
    simp [Progress.push, Progress.stop, pure, Exec.pure]
  | @executed tx txs p q result w w₁ w' fits run room rest ih =>
    obtain ⟨more, hmore, hrest⟩ := ih
    refine ⟨tx :: more, ?_, ?_⟩
    · rw [hmore, Progress.push, List.append_assoc, List.singleton_append]
    · have hlength : (p.push tx result).txResults.length + more.length =
          p.txResults.length + (tx :: more).length := by
        simp [Progress.push]
        omega
      rw [hlength] at hrest
      rw [applyTxs, if_neg fits, Exec.bind_apply, run]
      exact (congrFun (if_neg room) w₁).trans hrest

/-- Let a block have the context and the gas limit of another, and only those of its transactions
that were executed.  If the begin blocker treats both alike, then both give the same results,
events, gas and world, and the smaller one skips nothing. -/
theorem applyBlock_without_skipped [BlockTrait Block Tx] {block block' : Block} {w w' : World}
    {result : BlockResult} {executed : List Tx}
    (hrun : applyBlock host fuel stf block w = .done (.ok (result, executed), w'))
    (hcontext : BlockTrait.context block' = BlockTrait.context block)
    (hlimit : BlockTrait.gasLimit block' = BlockTrait.gasLimit block)
    (htxs : BlockTrait.txs block' = executed)
    (hbegin : stf.beginBlock block' = stf.beginBlock block) :
    executed.Sublist (BlockTrait.txs block) ∧
      applyBlock host fuel stf block' w =
        .done (.ok ({ result with txsSkipped := 0 }, executed), w') := by
  refine ⟨applyBlock_executed_sublist hrun, ?_⟩
  obtain ⟨events, w₁, hbegun, h⟩ | ⟨_, _, ⟨⟩⟩ := Exec.bind_done.mp hrun
  obtain ⟨q, w₂, hloop, h⟩ | ⟨_, _, ⟨⟩⟩ := Exec.bind_done.mp h
  obtain ⟨_, w₃, hend, h⟩ | ⟨_, _, ⟨⟩⟩ := Exec.bind_done.mp h
  cases h
  obtain ⟨_, ⟨⟩, hloop⟩ := applyTxs_loop hloop
  obtain ⟨more, hmore, hloop⟩ := hloop.without_skipped
  replace hmore : q.executed = more := hmore
  subst hmore
  replace hloop : applyTxs host fuel stf (BlockTrait.context block) (BlockTrait.gasLimit block)
    q.executed.length q.executed .start w₁ = .done (.ok { q with txsSkipped := 0 }, w₂) := by
    simpa [Progress.start] using hloop
  have hbegun' : doBeginBlock host fuel stf block' w = .done (.ok events, w₁) := by
    unfold doBeginBlock at hbegun ⊢
    rwa [hcontext, hbegin]
  unfold applyBlock
  rw [Exec.bind_apply, hbegun']
  dsimp only
  rw [htxs, hcontext, hlimit, Exec.bind_apply, hloop]
  dsimp only
  rw [Exec.bind_apply, hend]
  rfl

theorem applyBlock_without_skipped_tightBlock :
    ∃ result executed w', applyBlock sampleHost 3 testStf tightBlock sampleWorld =
        .done (.ok (result, executed), w') ∧ result.txsSkipped = 2 ∧
      applyBlock sampleHost 3 testStf { tightBlock with txs := executed } sampleWorld =
        .done (.ok ({ result with txsSkipped := 0 }, executed), w') := by
  obtain ⟨r, w', hrun, hr⟩ := tightBlock_ends.exists
  cases r with
  | error e => cases hr
  | ok p =>
    have hcontext : BlockTrait.context ({ tightBlock with txs := p.2 } : TestBlock) =
      BlockTrait.context tightBlock := rfl
    have hsmaller := applyBlock_without_skipped hrun hcontext rfl rfl rfl
    exact ⟨p.1, p.2, w', hrun, (Prod.mk.inj (Except.ok.inj hr)).2, hsmaller.2⟩

end Stf

end Evolve
