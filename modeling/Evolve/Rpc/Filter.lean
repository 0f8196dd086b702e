import Mathlib
import Evolve.Rpc.Service

/-! `filter_txs` of the executor service: which of the submitted transactions fit in a block.  The
running sums of bytes and gas are added in 64 bits and can wrap around. -/

namespace Evolve.Evnode

open Machine Borsh Effects Eth

/-- The status of a submitted transaction: included, invalid, or left for later. -/
inductive FilterStatus where
  | filterOk
  | filterRemove
  | filterPostpone
deriving DecidableEq

structure FilterTxsRequest where
  txs : List Bytes
  maxBytes : UInt64
  maxGas : UInt64

structure FilterTxsResponse where
  statuses : List FilterStatus

/-- The limit of a request, or the configured one where the request has none. -/
def effectiveLimit (requested configured : UInt64) : UInt64 :=
  if requested > 0 then requested else configured

namespace ExecutorServiceImpl

variable {crypto : Crypto}

def estimateTxGas (tx : TxContext crypto) : UInt64 := tx.gasLimit

def wouldExceed (maxBytes maxGas cumulativeBytes cumulativeGas : UInt64) (raw : Bytes)
    (tx : TxContext crypto) : Bool :=
  cumulativeBytes + UInt64.ofNat raw.length > maxBytes ||
    cumulativeGas + estimateTxGas tx > maxGas

variable (crypto) in
def filterLoop (maxBytes maxGas : UInt64) : List Bytes → UInt64 → UInt64 → List FilterStatus
  | [], _, _ => []
  | raw :: txs, cumulativeBytes, cumulativeGas =>
    match TxContext.decode crypto raw with
    | .error _ => .filterRemove :: filterLoop maxBytes maxGas txs cumulativeBytes cumulativeGas
    | .ok tx =>
      if wouldExceed maxBytes maxGas cumulativeBytes cumulativeGas raw tx then
        .filterPostpone :: filterLoop maxBytes maxGas txs cumulativeBytes cumulativeGas
      else
        .filterOk :: filterLoop maxBytes maxGas txs
          (cumulativeBytes + UInt64.ofNat raw.length) (cumulativeGas + estimateTxGas tx)

variable (service : ExecutorServiceImpl crypto)

def filterTxs (request : FilterTxsRequest) : Handler crypto FilterTxsResponse := do
  ensureInitialized
  let effectiveMaxBytes := effectiveLimit request.maxBytes service.config.maxBytes
  let effectiveMaxGas := effectiveLimit request.maxGas service.config.maxGas
  pure ⟨filterLoop crypto effectiveMaxBytes effectiveMaxGas request.txs 0 0⟩

/-! ### What the filter is for -/

variable (crypto) in
/-- The gas limit of a transaction that decodes. -/
def gasLimitOf (raw : Bytes) : Nat :=
  match TxContext.decode crypto raw with
  | .error _ => 0
  | .ok tx => tx.gasLimit.toNat

/-- The transactions with status `filterOk`. -/
def accepted (txs : List Bytes) (statuses : List FilterStatus) : List Bytes :=
  ((txs.zip statuses).filter fun p => p.2 = .filterOk).map Prod.fst

def bytesOf (txs : List Bytes) : Nat := (txs.map List.length).sum

variable (crypto) in
def gasOf (txs : List Bytes) : Nat := (txs.map (gasLimitOf crypto)).sum

variable (crypto) in
/-- A transaction decodes, and fits on top of others. -/
structure Fits (maxBytes maxGas bytes gas : Nat) (raw : Bytes) : Prop where
  decodes : ∃ tx, TxContext.decode crypto raw = .ok tx
  bytes : bytes + raw.length ≤ maxBytes
  gas : gas + gasLimitOf crypto raw ≤ maxGas

variable (crypto) in
/-- Each transaction is accepted exactly when it fits on top of those accepted before it, and of
some bytes and gas that are already taken. -/
def Greedy (maxBytes maxGas bytes gas : Nat) (txs : List Bytes) (statuses : List FilterStatus) :
    Prop :=
  ∀ before raw after, txs = before ++ raw :: after →
    (statuses[before.length]? = some .filterOk ↔
      Fits crypto maxBytes maxGas (bytes + bytesOf (accepted before statuses))
        (gas + gasOf crypto (accepted before statuses)) raw)

variable (crypto) in
structure FiltersWithin (maxBytes maxGas : Nat) (txs : List Bytes) (statuses : List FilterStatus) :
    Prop where
  length : statuses.length = txs.length
  greedy : Greedy crypto maxBytes maxGas 0 0 txs statuses
  bytes : bytesOf (accepted txs statuses) ≤ maxBytes
  gas : gasOf crypto (accepted txs statuses) ≤ maxGas

variable (crypto) in
/-- No transaction is accepted because a running sum wraps around. -/
def NeverWraps (maxBytes maxGas : UInt64) : List Bytes → UInt64 → UInt64 → Prop
  | [], _, _ => True
  | raw :: txs, cumulativeBytes, cumulativeGas =>
    match TxContext.decode crypto raw with
    | .error _ => NeverWraps maxBytes maxGas txs cumulativeBytes cumulativeGas
    | .ok tx =>
      if wouldExceed maxBytes maxGas cumulativeBytes cumulativeGas raw tx then
        NeverWraps maxBytes maxGas txs cumulativeBytes cumulativeGas
      else
        (cumulativeBytes.toNat + raw.length < 2 ^ 64 ∧
          cumulativeGas.toNat + (estimateTxGas tx).toNat < 2 ^ 64) ∧
        NeverWraps maxBytes maxGas txs
          (cumulativeBytes + UInt64.ofNat raw.length) (cumulativeGas + estimateTxGas tx)

/-! ### One transaction after the other -/

@[simp] theorem accepted_cons (raw : Bytes) (txs : List Bytes) (status : FilterStatus)
    (statuses : List FilterStatus) :
    accepted (raw :: txs) (status :: statuses) =
      (if status = .filterOk then [raw] else []) ++ accepted txs statuses := by
  unfold accepted
  rw [List.zip_cons_cons, List.filter_cons]
  by_cases hstatus : status = .filterOk
  · simp [hstatus]
  · simp [hstatus]

theorem greedy_cons {maxBytes maxGas bytes gas : Nat} {raw : Bytes} {txs : List Bytes}
    {status : FilterStatus} {statuses : List FilterStatus} :
    Greedy crypto maxBytes maxGas bytes gas (raw :: txs) (status :: statuses) ↔
      (status = .filterOk ↔ Fits crypto maxBytes maxGas bytes gas raw) ∧
      Greedy crypto maxBytes maxGas
        (bytes + bytesOf (if status = .filterOk then [raw] else []))
        (gas + gasOf crypto (if status = .filterOk then [raw] else [])) txs statuses := by
  constructor
  · intro h
    refine ⟨?_, fun before raw' after hsplit => ?_⟩
    · simpa [accepted, bytesOf, gasOf] using h [] raw txs rfl
    · have hlater := h (raw :: before) raw' after (by rw [hsplit, List.cons_append])
      simpa [bytesOf, gasOf, Nat.add_assoc] using hlater
  · rintro ⟨hfirst, hrest⟩ before raw' after hsplit
    cases before with
    | nil =>
      obtain ⟨rfl, rfl⟩ := List.cons.inj hsplit
      simpa [accepted, bytesOf, gasOf] using hfirst
    | cons first before =>
      obtain ⟨rfl, rfl⟩ := List.cons.inj hsplit
      simpa [bytesOf, gasOf, Nat.add_assoc] using hrest before raw' after rfl

theorem not_fits_of_error {maxBytes maxGas bytes gas : Nat} {raw : Bytes} {e : ErrorCode}
    (h : TxContext.decode crypto raw = .error e) : ¬ Fits crypto maxBytes maxGas bytes gas raw := by
  rintro ⟨⟨tx, htx⟩, -, -⟩
  rw [h] at htx
  cases htx

theorem fits_iff {maxBytes maxGas bytes gas : Nat} {raw : Bytes} {tx : TxContext crypto}
    (h : TxContext.decode crypto raw = .ok tx) :
    Fits crypto maxBytes maxGas bytes gas raw ↔
      bytes + raw.length ≤ maxBytes ∧ gas + tx.gasLimit.toNat ≤ maxGas := by
  have hgas : gasLimitOf crypto raw = tx.gasLimit.toNat := by
    rw [gasLimitOf, h]
  constructor
  · intro hfits
    exact ⟨hfits.bytes, hgas ▸ hfits.gas⟩
  · rintro ⟨hbytes, hle⟩
    exact ⟨⟨tx, h⟩, hbytes, hgas ▸ hle⟩

theorem toNat_add_ofNat (a : UInt64) (n : Nat) :
    (a + UInt64.ofNat n).toNat = (a.toNat + n) % 2 ^ 64 := by
  rw [UInt64.toNat_add, UInt64.toNat_ofNat', Nat.add_mod_mod]

theorem wouldExceed_iff {maxBytes maxGas bytes gas : UInt64} {raw : Bytes}
    {tx : TxContext crypto} :
    wouldExceed maxBytes maxGas bytes gas raw tx = true ↔
      maxBytes.toNat < (bytes.toNat + raw.length) % 2 ^ 64 ∨
        maxGas.toNat < (gas.toNat + tx.gasLimit.toNat) % 2 ^ 64 := by
  rw [wouldExceed, Bool.or_eq_true, decide_eq_true_iff, decide_eq_true_iff, gt_iff_lt, gt_iff_lt,
    UInt64.lt_iff_toNat_lt, UInt64.lt_iff_toNat_lt, toNat_add_ofNat, UInt64.toNat_add,
    estimateTxGas]

/-- The loop is greedy exactly when no sum wraps around: a sum that wraps around is over the limit,
and one that passes the check without is within it. -/
theorem greedy_filterLoop_iff {maxBytes maxGas : UInt64} (txs : List Bytes) (bytes gas : UInt64) :
    Greedy crypto maxBytes.toNat maxGas.toNat bytes.toNat gas.toNat txs
        (filterLoop crypto maxBytes maxGas txs bytes gas) ↔
      NeverWraps crypto maxBytes maxGas txs bytes gas := by
  induction txs generalizing bytes gas with
  | nil => exact iff_of_true (fun before raw after hsplit => by simp at hsplit) trivial
  | cons raw txs ih =>
    have hmaxBytes := maxBytes.toNat_lt
    have hmaxGas := maxGas.toNat_lt
    unfold filterLoop NeverWraps
    cases hdecode : TxContext.decode crypto raw with
    | error e =>
      rw [greedy_cons]
      simpa [not_fits_of_error hdecode, bytesOf, gasOf] using ih bytes gas
    | ok tx =>
      dsimp only
      by_cases hexceeds : wouldExceed maxBytes maxGas bytes gas raw tx = true
      · have hbig : ¬ Fits crypto maxBytes.toNat maxGas.toNat bytes.toNat gas.toNat raw := by
          rw [fits_iff hdecode]
          rw [wouldExceed_iff] at hexceeds
          omega
        rw [if_pos hexceeds, if_pos hexceeds, greedy_cons]
        simpa [hbig, bytesOf, gasOf] using ih bytes gas
      · rw [if_neg hexceeds, if_neg hexceeds, greedy_cons, estimateTxGas]
        have hfits : Fits crypto maxBytes.toNat maxGas.toNat bytes.toNat gas.toNat raw ↔
            bytes.toNat + raw.length < 2 ^ 64 ∧ gas.toNat + tx.gasLimit.toNat < 2 ^ 64 := by
          rw [fits_iff hdecode]
          rw [wouldExceed_iff] at hexceeds
          omega
        rw [iff_true_left rfl, hfits]
        refine and_congr_right fun hroom => ?_
        have hbytes : (bytes + UInt64.ofNat raw.length).toNat = bytes.toNat + raw.length := by
          rw [toNat_add_ofNat]
          omega
        have hgas : (gas + tx.gasLimit).toNat = gas.toNat + gasLimitOf crypto raw := by
          rw [UInt64.toNat_add, gasLimitOf, hdecode]
          dsimp only
          omega
        rw [← ih, hbytes, hgas]
        simp [bytesOf, gasOf]

theorem length_filterLoop {maxBytes maxGas : UInt64} (txs : List Bytes) (bytes gas : UInt64) :
    (filterLoop crypto maxBytes maxGas txs bytes gas).length = txs.length := by
  induction txs generalizing bytes gas with
  | nil => rfl
  | cons raw txs ih =>
    unfold filterLoop
    split
    · rw [List.length_cons, ih, List.length_cons]
    · split
      · rw [List.length_cons, ih, List.length_cons]
      · rw [List.length_cons, ih, List.length_cons]

theorem Greedy.sums_le {maxBytes maxGas bytes gas : Nat} {txs : List Bytes}
    {statuses : List FilterStatus} (h : Greedy crypto maxBytes maxGas bytes gas txs statuses)
    (hbytes : bytes ≤ maxBytes) (hgas : gas ≤ maxGas) :
    bytes + bytesOf (accepted txs statuses) ≤ maxBytes ∧
      gas + gasOf crypto (accepted txs statuses) ≤ maxGas := by
  induction txs generalizing bytes gas statuses with
  | nil => exact ⟨hbytes, hgas⟩
  | cons raw txs ih =>
    cases statuses with
    | nil => exact ⟨hbytes, hgas⟩
    | cons status statuses =>
      obtain ⟨hfirst, hrest⟩ := greedy_cons.mp h
      rw [accepted_cons]
      by_cases hstatus : status = .filterOk
      · obtain ⟨-, hfitsBytes, hfitsGas⟩ := hfirst.mp hstatus
        rw [if_pos hstatus] at hrest ⊢
        have hsums := ih hrest (by simpa [bytesOf] using hfitsBytes)
          (by simpa [gasOf] using hfitsGas)
        simpa [bytesOf, gasOf, Nat.add_assoc] using hsums
      · rw [if_neg hstatus] at hrest ⊢
        exact ih hrest hbytes hgas

theorem filterTxs_of_initialized (request : FilterTxsRequest) {s : ExecutorState crypto}
    (hinit : s.initialized = true) :
    service.filterTxs request s =
      .done (.ok ⟨filterLoop crypto (effectiveLimit request.maxBytes service.config.maxBytes)
        (effectiveLimit request.maxGas service.config.maxGas) request.txs 0 0⟩, s) := by
  unfold filterTxs
  rw [Exec.bind_apply, ensureInitialized_of hinit]
  rfl

/-- For every request on an initialised chain: there is one status for each transaction, exactly the
transactions that fit on top of those accepted before are accepted, and the sums are within the
limits, if and only if no transaction is accepted because a sum wraps around. -/
theorem filterTxs_filtersWithin_iff (request : FilterTxsRequest) {s : ExecutorState crypto}
    (hinit : s.initialized = true) :
    ∃ response, service.filterTxs request s = .done (.ok response, s) ∧
      (FiltersWithin crypto (effectiveLimit request.maxBytes service.config.maxBytes).toNat
          (effectiveLimit request.maxGas service.config.maxGas).toNat request.txs
          response.statuses ↔
        NeverWraps crypto (effectiveLimit request.maxBytes service.config.maxBytes)
          (effectiveLimit request.maxGas service.config.maxGas) request.txs 0 0) := by
  refine ⟨_, service.filterTxs_of_initialized request hinit, ?_⟩
  refine Iff.trans ?_ (greedy_filterLoop_iff request.txs 0 0)
  constructor
  · exact FiltersWithin.greedy
  · intro hgreedy
    obtain ⟨hbytes, hgas⟩ := hgreedy.sums_le (Nat.zero_le _) (Nat.zero_le _)
    exact ⟨length_filterLoop .., hgreedy, (Nat.zero_add _).symm.trans_le hbytes,
      (Nat.zero_add _).symm.trans_le hgas⟩

/-! ### A sum that wraps around -/

theorem filterTxs_roomyTxs :
    ∃ response, sampleService.filterTxs ⟨roomyTxs, 0, 0⟩ (sampleState []) =
        .done (.ok response, sampleState []) ∧
      (FiltersWithin sampleCrypto 1024 740 roomyTxs response.statuses ↔
        NeverWraps sampleCrypto 1024 740 roomyTxs 0 0) :=
  filterTxs_filtersWithin_iff sampleService ⟨roomyTxs, 0, 0⟩ rfl

/-- Two transactions whose gas limits add up to zero in 64 bits. -/
def wrappingTxs : List Bytes := [recordingBytes 1 1, recordingBytes 2 u64Max]

theorem wrappingTxs_statuses :
    filterLoop sampleCrypto 1024 740 wrappingTxs 0 0 = [.filterOk, .filterOk] := by
  decide +kernel

theorem wrappingTxs_gas :
    740 < gasOf sampleCrypto (accepted wrappingTxs [.filterOk, .filterOk]) := by
  decide +kernel

/-- Both are accepted, and together they are over the limit. -/
theorem filterTxs_accepts_wrappingTxs :
    sampleService.filterTxs ⟨wrappingTxs, 0, 0⟩ (sampleState []) =
        .done (.ok ⟨[.filterOk, .filterOk]⟩, sampleState []) ∧
      ¬ FiltersWithin sampleCrypto 1024 740 wrappingTxs [.filterOk, .filterOk] := by
  constructor
  · rw [sampleService.filterTxs_of_initialized ⟨wrappingTxs, 0, 0⟩ rfl, ← wrappingTxs_statuses]
    rfl
  · intro hfilters
    exact absurd hfilters.gas (Nat.not_le.mpr wrappingTxs_gas)

end ExecutorServiceImpl

end Evolve.Evnode
