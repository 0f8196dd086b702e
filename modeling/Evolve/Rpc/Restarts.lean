import Mathlib
import Evolve.Rpc.Runner
import Evolve.Stf.RuntimeKeys

/-! What holds of a node across its processes, however each of them ends: genesis is committed once
and for all, and the storage holds whole blocks, in the order in which they were committed, among
them every block that was answered with a root. -/

namespace Evolve.Evnode.ExternalConsensusNode

open Machine Borsh Effects Exec Eth Durable Semantics Server Storage ExecutorServiceImpl

variable {crypto : Crypto} {G S E : Type} {node : ExternalConsensusNode crypto G S E}

/-! ### The record -/

section

variable [LruCrate]

/-- The blocks that were answered with a root. -/
def acknowledged (s : Surroundings crypto G S) : List (BlockExecutedInfo crypto) :=
  s.answers.filterMap fun a => a.2.toOption.map fun _ => a.1

/-- The results of the genesis runs that were committed. -/
def committedGenesis (s : Surroundings crypto G S) : List G :=
  s.storage.confirmed.filterMap Write.genesisResult

/-- The results of genesis with which the processes have served, and those that were committed. -/
def genesisResults (s : Surroundings crypto G S) : List G :=
  s.served.map Server.ChainState.genesisResult ++ committedGenesis s

def applyWrite (c : Codec G) (m : KeyValues) (w : Write crypto G) : KeyValues :=
  (w.operations c).foldl Operation.applyTo m

/-- The storage keeps what it has committed, and the chain state can be read from it. -/
structure Trusted (node : ExternalConsensusNode crypto G S E) extends
    Semantics node.store (applyWrite node.genesisCodec) where
  reads : ∀ t, node.get t chainStateKey = .ok (current t chainStateKey)

end

/-! ### Blocks that are executed -/

theorem ne_chainStateKey {key : Bytes} (h : RuntimeKey key) : key ≠ chainStateKey := by
  obtain ⟨first, rest, rfl, hfirst⟩ := h.head_le
  intro heq
  have hhead : first = 95 := (List.cons.inj heq).1
  rw [hhead] at hfirst
  exact absurd hfirst (by decide)

theorem applyWrite_block {c : Codec G} {info : BlockExecutedInfo crypto} {storage : ReadonlyKV}
    {contents : KeyValues} (hreads : ∀ key, storage key = .ok (contents key)) (key : Bytes) :
    ExecutionState.applyChanges storage info.stateChanges key =
      .ok (applyWrite c contents (.block info) key) := by
  unfold applyWrite Write.operations stateChangesToOperations ExecutionState.applyChanges
  dsimp only
  induction info.stateChanges generalizing storage contents with
  | nil => exact hreads key
  | cons change changes ih =>
    refine ih fun key => ?_
    cases change <;>
      simp only [ExecutionState.applyChange, Operation.applyTo, Operation.key, Operation.value,
        Function.update_apply, hreads] <;> split <;> rfl

section

variable {service : ExecutorServiceImpl crypto} {fuel : Nat} {storage : ReadonlyKV}
  {block : ServerBlock (TxContext crypto)} {w : World} {info : BlockExecutedInfo crypto}
  {r : SdkResult (BlockResult × List (TxContext crypto))}
  (h : service.executeBlock fuel storage block = .done (r, w))
  (hchanges : info.stateChanges = w.storage.intoChanges)
include h hchanges

/-- Whatever a block executes, it changes keys of the runtime only, and so leaves the chain state of
the node alone. -/
theorem executed_blocks_spare_chainState :
    (∀ change ∈ info.stateChanges, RuntimeKey (changeKey change)) ∧ SparesInfo info := by
  have hkeys : ∀ change ∈ info.stateChanges, RuntimeKey (changeKey change) := by
    rw [hchanges]
    exact applyBlock_changes_runtimeKeys h
  refine ⟨hkeys, fun op hop => ?_⟩
  obtain ⟨change, hchange, rfl⟩ := List.mem_map.mp hop
  have hkey := ne_chainStateKey (hkeys change hchange)
  cases change <;> exact hkey

/-- The contents of the storage with the changes of an executed block are the state in which its
execution has ended, key by key. -/
theorem committed_block_contents {contents : KeyValues}
    (hreads : ∀ key, storage key = .ok (contents key)) (c : Codec G) (key : Bytes) :
    w.storage.lookup key = .ok (applyWrite c contents (.block info) key) := by
  rw [← applyBlock_changes_lookup h, ← hchanges]
  exact applyWrite_block hreads key

end

theorem executed_blocks_spare_roomyTxs :
    ∃ result txs w, sampleService.executeBlock 3 sampleStore
        (sampleService.block (sampleRequest roomyTxs)) = .done (.ok (result, txs), w) ∧
      (∀ change ∈ w.storage.intoChanges, RuntimeKey (changeKey change)) ∧
      SparesInfo ⟨1, 0, w.storage.intoChanges, result, .repeatByte 32 0, txs⟩ := by
  obtain ⟨result, txs, w, hrun, -, -⟩ := ExecutorServiceImpl.roomyTxs_run.executeBlock
  let info : BlockExecutedInfo sampleCrypto :=
    ⟨1, 0, w.storage.intoChanges, result, .repeatByte 32 0, txs⟩
  have hchanges : info.stateChanges = w.storage.intoChanges := rfl
  exact ⟨result, txs, w, hrun, executed_blocks_spare_chainState hrun hchanges⟩

theorem committed_block_contents_roomyTxs :
    ∃ result txs w, sampleService.executeBlock 3 sampleStore
        (sampleService.block (sampleRequest roomyTxs)) = .done (.ok (result, txs), w) ∧
      ∀ key, w.storage.lookup key = .ok (applyWrite .u64
        (fun key => (sampleStore key).toOption.join)
        (.block ⟨1, 0, w.storage.intoChanges, result, .repeatByte 32 0, txs⟩) key) := by
  obtain ⟨result, txs, w, hrun, -, -⟩ := ExecutorServiceImpl.roomyTxs_run.executeBlock
  refine ⟨result, txs, w, hrun, committed_block_contents hrun rfl (fun key => ?_) .u64⟩
  unfold sampleStore
  split
  · rfl
  · split <;> rfl

/-! ### Invariants -/

section

variable [LruCrate]

/-- The contents have a chain state with this result of genesis. -/
def Pins (c : Codec G) (g : G) (contents : KeyValues) : Prop :=
  ∃ height, savedState c contents = some ⟨height, g⟩

section

variable (m : node.Trusted)

/-- All that may be read next time has a chain state with one result of genesis, which is the one
that was seen. -/
structure Pinned (g : G) (writes : List (Write crypto G)) (n : Nat)
    (s : Surroundings crypto G S) : Prop where
  pins : ∀ contents ∈ m.Kept writes n, Pins node.genesisCodec g contents
  served : ∀ state ∈ s.served, state.genesisResult = g
  committed : ∀ g' ∈ committedGenesis s, g' = g
  once : (committedGenesis s).length ≤ 1

/-- No process has come to serve. -/
structure Fresh (s : Surroundings crypto G S) : Prop where
  served : s.served = []
  committed : committedGenesis s = []

/-- The blocks that were committed are those that were answered with a root. -/
def Answered (s : Surroundings crypto G S) : Prop :=
  s.storage.confirmed.filterMap Write.info = acknowledged s

def Backed (g : G) (s : Surroundings crypto G S) : Prop :=
  ∃ writes n, m.Holds writes n s.storage ∧ Pinned m g writes n s

/-- While a process runs. -/
structure Serves (g : G) (s : Surroundings crypto G S) : Prop where
  answered : Answered s
  backed : Backed m g s

/-- Between processes. -/
structure AtRest (s : Surroundings crypto G S) : Prop where
  answered : Answered s
  rests : ∃ writes n, m.Rests writes n s.storage ∧ (Fresh s ∨ ∃ g, Pinned m g writes n s)

end

variable {m : node.Trusted} {c : Codec G} {g : G} {writes : List (Write crypto G)} {n : Nat}
  {s s' : Surroundings crypto G S} {w : Write crypto G} {info : BlockExecutedInfo crypto}
  {queue : List (BlockExecutedInfo crypto)} {ending : Ending} {storage : S}

theorem Serves.atRest (h : Serves m g s) : AtRest m s := by
  obtain ⟨hanswered, writes, n, hholds, hpinned⟩ := h
  exact ⟨hanswered, writes, n, hholds.toRests, .inr ⟨g, hpinned⟩⟩

/-- A write that leaves the result of genesis as it is. -/
def Repins (c : Codec G) (g : G) (w : Write crypto G) : Prop :=
  ∀ m, Pins c g m → Pins c g (applyWrite c m w)

omit [LruCrate] in
theorem repins_block (h : SparesInfo info) : Repins c g (.block info) := by
  rintro m ⟨height, hm⟩
  exact ⟨height, by rw [← hm]; exact savedState_of_spares h⟩

variable {height : UInt64}

omit [LruCrate] in
theorem repins_chainState {value : Bytes}
    (h : (Server.ChainState.codec c).encode ⟨height, g⟩ = some value) :
    Repins c g (.chainState ⟨height, g⟩ : Write crypto G) :=
  fun _ _ => ⟨height, savedState_operations h⟩

omit [LruCrate] in
theorem pins_genesis {m : KeyValues} {changes : List CoreStateChange} {value : Bytes}
    (h : (Server.ChainState.codec c).encode ⟨height, g⟩ = some value) :
    Pins c g (applyWrite c m (.genesis changes ⟨height, g⟩ : Write crypto G)) := by
  refine ⟨height, ?_⟩
  unfold applyWrite Write.operations
  rw [List.foldl_append]
  exact savedState_operations h

theorem Pinned.append (h : Pinned m g writes n s) (hn : n ≤ writes.length)
    (hw : Repins node.genesisCodec g w) (hserved : s'.served = s.served)
    (hcommitted : committedGenesis s' = committedGenesis s) : Pinned m g (writes ++ [w]) n s' where
  pins m hm := by
    rcases (mem_kept_append hn).mp hm with hm | rfl
    · exact h.pins m hm
    · exact hw _ (h.pins _ (mem_kept_all hn))
  served := hserved ▸ h.served
  committed := hcommitted ▸ h.committed
  once := hcommitted ▸ h.once

theorem Pinned.congr (h : Pinned m g writes n s) (hserved : s'.served = s.served)
    (hcommitted : committedGenesis s' = committedGenesis s) : Pinned m g writes n s' :=
  ⟨h.pins, hserved ▸ h.served, hcommitted ▸ h.committed, hcommitted ▸ h.once⟩

theorem Pinned.of_le {n' : Nat} (h : Pinned m g writes n s) (hn : n ≤ n') :
    Pinned m g writes n' s :=
  ⟨fun m hm => h.pins m (kept_of_le hn hm), h.served, h.committed, h.once⟩

theorem Backed.congr (h : Backed m g s) (hstorage : s'.storage = s.storage)
    (hserved : s'.served = s.served) : Backed m g s' := by
  obtain ⟨writes, n, hholds, hpinned⟩ := h
  refine ⟨writes, n, hstorage ▸ hholds, hpinned.congr hserved ?_⟩
  unfold committedGenesis
  rw [hstorage]

variable {confirmed : List (Write crypto G)}

theorem Answered.answer (h : Answered s) {result : Except EvnodeError B256}
    (hconfirmed : s'.storage.confirmed = s.storage.confirmed ++ confirmed)
    (hanswers : s'.answers = s.answers ++ [(info, result)])
    (hresult : confirmed.filterMap Write.info = (result.toOption.map fun _ => info).toList) :
    Answered s' := by
  unfold Answered acknowledged
  rw [hconfirmed, hanswers, List.filterMap_append, List.filterMap_append, hresult, h]
  cases result <;> rfl

theorem committedGenesis_append {storage : Durable.Recorded S (Write crypto G)}
    (h : storage.confirmed = s.storage.confirmed ++ confirmed) :
    committedGenesis { s with storage } =
      committedGenesis s ++ confirmed.filterMap Write.genesisResult := by
  unfold committedGenesis
  rw [h, List.filterMap_append]

theorem answered_append {storage : Durable.Recorded S (Write crypto G)}
    (h : storage.confirmed = s.storage.confirmed ++ confirmed) (hs : Answered s)
    (hother : confirmed.filterMap Write.info = []) : Answered { s with storage } := by
  unfold Answered
  rw [h, List.filterMap_append, hother, List.append_nil]
  exact hs

/-! ### Steps of a process -/

theorem settles_persist (h : m.Holds writes n s.storage) :
    Settles (node.persist w)
      (fun r s' => ∃ storage, s' = { s with storage } ∧
        storage.confirmed = s.storage.confirmed ++ Store.confirmedBy w (some r) ∧
        m.HoldsAfter writes n w storage (some r))
      (fun s' => ∃ storage, s' = { s with storage } ∧
        storage.confirmed = s.storage.confirmed ++ [] ∧ m.Rests (writes ++ [w]) n storage) s := by
  have hafter := holdsAfter_persist h (w := w)
  have hconfirmed := node.store.persist_confirmed w s.storage
  refine ((node.settles_persist_storage w s).mono ?_).mono_error ?_
  · rintro r _ ⟨storage, rfl, hpersist⟩
    rw [hpersist] at hafter hconfirmed
    exact ⟨storage, rfl, hconfirmed, hafter⟩
  · rintro _ ⟨storage, rfl, hpersist⟩
    rw [hpersist] at hafter hconfirmed
    exact ⟨storage, rfl, hconfirmed, hafter⟩

theorem settles_persist_serves (hw : Repins node.genesisCodec g w) (hother : w.genesisResult = none)
    (h : Serves m g s) :
    Settles (node.persist w)
      (fun r s' => ∃ storage, s' = { s with storage } ∧
        storage.confirmed = s.storage.confirmed ++ Store.confirmedBy w (some r) ∧ Backed m g s')
      (AtRest m) s := by
  obtain ⟨hanswered, writes, n, hholds, hpinned⟩ := h
  have hstill {storage : Durable.Recorded S (Write crypto G)}
      (hcommitted : committedGenesis { s with storage } = committedGenesis s) :
      Pinned m g (writes ++ [w]) n { s with storage } :=
    hpinned.append hholds.within hw rfl hcommitted
  refine ((settles_persist hholds).mono ?_).mono_error ?_
  · rintro r _ ⟨storage, rfl, hconfirmed, hafter⟩
    have hcommitted : committedGenesis { s with storage } = committedGenesis s := by
      rw [committedGenesis_append hconfirmed]
      cases r <;> simp [Store.confirmedBy, hother]
    refine ⟨storage, rfl, hconfirmed, ?_⟩
    cases r with
    | refused e => exact ⟨writes, n, hafter, hpinned.congr rfl hcommitted⟩
    | uncommitted e => exact ⟨writes ++ [w], n, hafter, hstill hcommitted⟩
    | committed root =>
      exact ⟨writes ++ [w], _, hafter, (hstill hcommitted).of_le (le_length_append hholds.within)⟩
  · rintro _ ⟨storage, rfl, hconfirmed, hrests⟩
    have hcommitted := (committedGenesis_append hconfirmed).trans (List.append_nil _)
    exact ⟨answered_append hconfirmed hanswered rfl, writes ++ [w], n, hrests,
      .inr ⟨g, hstill hcommitted⟩⟩

theorem settles_commitBlock (hinfo : SparesInfo info) {sink : CommitSink} (h : Serves m g s) :
    Settles (node.commitBlock info sink) (fun _ => Serves m g) (AtRest m) s := by
  refine .bind ((settles_persist_serves (repins_block hinfo) rfl h).mono ?_)
  rintro r _ ⟨storage, rfl, hconfirmed, hbacked⟩
  cases r with
  | refused e =>
    exact .bind (.modify (.pure ⟨h.answered.answer hconfirmed rfl rfl, hbacked.congr rfl rfl⟩))
  | uncommitted e =>
    exact .bind (.modify (.pure ⟨h.answered.answer hconfirmed rfl rfl, hbacked.congr rfl rfl⟩))
  | committed root =>
    have hstorage := node.indexBlock_storage info sink.parentHash root { s with storage }
    have hanswers := congrArg (· ++ [(info, Except.ok root)])
      (node.indexBlock_answers info sink.parentHash root { s with storage })
    refine .bind (.modify (.bind (.modify (.pure ⟨?_, hbacked.congr hstorage ?_⟩))))
    · exact h.answered.answer ((congrArg (·.confirmed) hstorage).trans hconfirmed) hanswers rfl
    · exact node.indexBlock_served info sink.parentHash root { s with storage }

theorem settles_saveChainState (h : Serves m g s) :
    Settles (node.saveChainState ⟨height, g⟩) (fun _ => AtRest m) (AtRest m) s := by
  unfold saveChainState
  cases hencode : (Server.ChainState.codec node.genesisCodec).encode ⟨height, g⟩ with
  | none => exact .pure h.atRest
  | some value =>
    refine .bind ((settles_persist_serves (repins_chainState hencode) rfl h).mono ?_)
    rintro r _ ⟨storage, rfl, hconfirmed, hbacked⟩
    have hserves : Serves m g { s with storage } := by
      refine ⟨answered_append hconfirmed h.answered ?_, hbacked⟩
      cases r <;> rfl
    cases r <;> exact .pure hserves.atRest

/-! ### The start of a process -/

theorem Fresh.pinned (h : Fresh s)
    (hpins : ∀ contents ∈ m.Kept writes n, Pins node.genesisCodec g contents) :
    Pinned m g writes n s where
  pins := hpins
  served := by
    rw [h.served]
    nofun
  committed := by
    rw [h.committed]
    nofun
  once := by
    rw [h.committed]
    exact Nat.zero_le _

theorem Fresh.unconfirmed (h : Fresh s) {storage : Durable.Recorded S (Write crypto G)}
    (hconfirmed : storage.confirmed = s.storage.confirmed ++ []) : Fresh { s with storage } := by
  refine ⟨h.served, ?_⟩
  rw [committedGenesis_append hconfirmed, h.committed]
  rfl

/-- Genesis is committed, or the next process finds that none was. -/
theorem settles_genesis (hanswered : Answered s) (hfresh : Fresh s)
    (hholds : m.Holds writes n s.storage) {changes : List CoreStateChange} {value : Bytes}
    (hencode : (Server.ChainState.codec node.genesisCodec).encode ⟨height, g⟩ = some value) :
    Settles (node.persist (.genesis changes ⟨height, g⟩))
      (fun r s' => AtRest m s' ∧
        ∀ root, r = .committed root → Serves m g s')
      (AtRest m) s := by
  have hfails {storage : Durable.Recorded S (Write crypto G)} {writes : List (Write crypto G)}
      (hconfirmed : storage.confirmed = s.storage.confirmed ++ []) (h : m.Rests writes n storage) :
      AtRest m { s with storage } :=
    ⟨answered_append hconfirmed hanswered rfl, _, _, h, .inl (hfresh.unconfirmed hconfirmed)⟩
  refine ((settles_persist hholds).mono ?_).mono_error ?_
  · rintro r _ ⟨storage, rfl, hconfirmed, hafter⟩
    cases r with
    | refused e => exact ⟨hfails hconfirmed hafter.toRests, nofun⟩
    | uncommitted e => exact ⟨hfails hconfirmed hafter.toRests, nofun⟩
    | committed root =>
      have hcommitted : committedGenesis { s with storage } = [g] := by
        rw [committedGenesis_append hconfirmed, hfresh.committed]
        rfl
      have hserves : Serves m g { s with storage } := by
        refine ⟨answered_append hconfirmed hanswered rfl, _, _, hafter, fun m hm => ?_, ?_, ?_, ?_⟩
        · rw [kept_all hm, after_append]
          exact pins_genesis hencode
        · rw [hfresh.served]
          nofun
        · rw [hcommitted]
          exact fun g' hg' => List.mem_singleton.mp hg'
        · rw [hcommitted]
          exact le_rfl
      exact ⟨hserves.atRest, fun _ _ => hserves⟩
  · rintro _ ⟨storage, rfl, hconfirmed, hrests⟩
    exact hfails hconfirmed hrests

/-- A process resumes from the chain state that it finds; it runs genesis only if none has come to
serve before. -/
theorem settles_bootstrap (h : AtRest m s) :
    Settles node.bootstrap (fun state => Serves m state.genesisResult) (AtRest m)
      (node.reopened s) := by
  obtain ⟨hanswered, writes, n, hrests, hgenesis⟩ := h
  obtain ⟨k, hk, hholds⟩ := hrests.reopened
  have hload : loadChainState node.genesisCodec (node.get (node.reopened s).storage.store) =
      savedState node.genesisCodec (m.after (writes.take k)) := by
    rw [← hholds.shows]
    exact loadChainState_eq (m.reads _)
  have hmem : m.after (writes.take k) ∈ m.Kept (writes.take k) (writes.take k).length :=
    mem_kept_all le_rfl
  refine .bind (.read ?_)
  rw [hload]
  cases hsaved : savedState node.genesisCodec (m.after (writes.take k)) with
  | some state =>
    refine .pure ⟨hanswered, _, _, hholds, ?_⟩
    rcases hgenesis with hfresh | ⟨g, hpinned⟩
    · refine Fresh.pinned ⟨hfresh.served, hfresh.committed⟩ fun x hx => ?_
      rw [kept_all hx]
      exact ⟨state.height, hsaved⟩
    · obtain ⟨height, hpins⟩ := hpinned.pins _ (kept_take hk hmem)
      cases hsaved.symm.trans hpins
      exact ⟨fun x hx => hpinned.pins x (kept_take hk hx), hpinned.served, hpinned.committed,
        hpinned.once⟩
  | none =>
    have hfresh : Fresh (node.reopened s) := by
      rcases hgenesis with hfresh | ⟨g, hpinned⟩
      · exact ⟨hfresh.served, hfresh.committed⟩
      · obtain ⟨height, hpins⟩ := hpinned.pins _ (kept_take hk hmem)
        cases hsaved.symm.trans hpins
    have hrest : AtRest m (node.reopened s) := ⟨hanswered, _, _, hholds.toRests, .inl hfresh⟩
    refine .bind (.read ?_)
    cases node.runGenesis (node.reopened s).storage.store with
    | error message => exact .throw hrest
    | ok output =>
      dsimp only
      cases hencode : (Server.ChainState.codec node.genesisCodec).encode ⟨1, output.2⟩ with
      | none => exact .throw hrest
      | some value =>
        have hanswered' : Answered (node.reopened s) := hanswered
        refine .bind ((settles_genesis hanswered' hfresh hholds hencode).mono ?_)
        rintro r s' ⟨hrest', hserves⟩
        cases r with
        | refused e => exact .throw hrest'
        | uncommitted e => exact .throw hrest'
        | committed root => exact .pure (hserves root rfl)

theorem settles_run (hqueue : ∀ info ∈ queue, SparesInfo info) (h : AtRest m s) :
    Settles (node.run queue ending) (fun _ => AtRest m) (AtRest m) s := by
  refine .bind (.modify (.bind ((settles_bootstrap h).mono ?_)))
  rintro state s₁ ⟨hanswered, writes, n, hholds, hpinned⟩
  have hbacked : Backed m state.genesisResult { s₁ with served := s₁.served ++ [state] } := by
    refine ⟨writes, n, hholds, hpinned.pins, fun a ha => ?_, hpinned.committed, hpinned.once⟩
    rcases List.mem_append.mp ha with ha | ha
    · exact hpinned.served a ha
    · rw [List.mem_singleton.mp ha]
  have hspawned (chainIndex : ChainIndex.PersistentChainIndex) : Serves m state.genesisResult
      { s₁ with served := s₁.served ++ [state], chainIndex } :=
    ⟨hanswered, hbacked.congr rfl rfl⟩
  refine .bind (.modify (.bind_from rfl (.bind ((node.settles_commitBlocks (fun info hinfo _ _ =>
    settles_commitBlock (hqueue info hinfo)) (hspawned _)).mono ?_))))
  intro sink s₂ hs₂
  cases ending with
  | killed => exact .throw hs₂.atRest
  | stopped => exact settles_saveChainState hs₂

/-! ### All processes -/

theorem atRest_of_reached (hstart : m.survivors storage ⊆ {m.start})
    (h : node.Reached storage s) : AtRest m s := by
  induction h with
  | untouched =>
    refine ⟨rfl, [], 0, ⟨fun m hm => ⟨0, le_rfl, ?_⟩, le_rfl, .slnil, .slnil⟩, .inl ⟨rfl, rfl⟩⟩
    exact Set.mem_singleton_iff.mp (hstart hm)
  | @run s s' queue ending r hs hqueue hrun ih =>
    cases r with
    | error e => exact (settles_run hqueue ih).fails hrun
    | ok result => exact (settles_run hqueue ih).returns _ _ hrun

/-- Genesis is committed once at most, and all processes serve with one result of genesis, whichever
processes are killed and wherever. -/
theorem genesis_once (m : node.Trusted) (hstart : m.survivors storage ⊆ {m.start})
    (h : node.Reached storage s) :
    (committedGenesis s).length ≤ 1 ∧
      ∀ a ∈ genesisResults s, ∀ b ∈ genesisResults s, a = b := by
  obtain ⟨-, writes, n, -, hfresh | ⟨g, hpinned⟩⟩ := atRest_of_reached hstart h
  · unfold genesisResults
    rw [hfresh.committed, hfresh.served]
    exact ⟨Nat.zero_le _, nofun⟩
  · have hall : ∀ a ∈ genesisResults s, a = g := by
      intro a ha
      rcases List.mem_append.mp ha with ha | ha
      · obtain ⟨state, hstate, rfl⟩ := List.mem_map.mp ha
        exact hpinned.served state hstate
      · exact hpinned.committed a ha
    exact ⟨hpinned.once, fun a ha b hb => (hall a ha).trans (hall b hb).symm⟩

end

/-! ### A process that is killed while it commits genesis -/

/-- What is read, what is kept, and how often it was to be committed. -/
structure SampleStorage where
  current : KeyValues
  kept : KeyValues
  commits : Nat

/-- The process ends in the first commit, before anything is kept. -/
def sampleNode : ExternalConsensusNode sampleCrypto UInt64 SampleStorage Unit where
  get t key := .ok (t.current key)
  batch operations t :=
    (some (.ok ()), { t with current := operations.foldl Operation.applyTo t.current })
  commit t :=
    if t.commits = 0 then (none, { t with commits := 1 })
    else (some (.ok (.repeatByte 32 0)), ⟨t.current, t.current, t.commits + 1⟩)
  reopen t := { t with current := t.kept }
  indexFaults _ := ⟨false, false, false, false, false⟩
  debug _ := ""
  genesisCodec := .u64
  encodeError := ""
  runGenesis _ := .ok ([], 7)
  sha256 _ := .repeatByte 32 0
  chainId := 1
  maxGas := 30000000
  rpcEnabled := false
  enableBlockIndexing := true

def trusted : sampleNode.Trusted where
  current := SampleStorage.current
  survivors t := {t.kept}
  start _ := none
  write_ok := by
    rintro w t t' ⟨⟩
    exact ⟨rfl, Set.subset_insert _ _⟩
  write_error := by
    rintro w t e t' ⟨⟩
  write_gone := by
    rintro w t t' ⟨⟩
  commit_ok := by
    intro t r t' h
    simp only [store, sampleNode] at h
    split at h <;> cases h
    exact ⟨rfl, subset_rfl⟩
  commit_error := by
    intro t e t' h
    simp only [store, sampleNode] at h
    split at h <;> cases h
  commit_gone := by
    intro t t' h
    simp only [store, sampleNode] at h
    split at h <;> cases h
    exact Set.subset_insert _ _
  reopen := fun t => ⟨rfl, subset_rfl⟩
  reads _ := rfl

def sampleInfo (height : UInt64) : BlockExecutedInfo sampleCrypto where
  height := height
  timestamp := 10
  stateChanges := [.set [0] [1]]
  blockResult := ⟨[], [], [], 0, 0⟩
  stateRoot := .repeatByte 32 0
  transactions := []

theorem sparesInfo_sample (height : UInt64) : SparesInfo (sampleInfo height) := by
  intro op hop
  cases List.mem_singleton.mp hop
  decide

/-- One process is killed in genesis and one while it is idle; the third goes on. -/
def threeProcesses : Surroundings sampleCrypto UInt64 SampleStorage :=
  left (sampleNode.run [sampleInfo 3] .stopped) (left (sampleNode.run [sampleInfo 2] .killed)
    (left (sampleNode.run [] .stopped) (untouched ⟨fun _ => none, fun _ => none, 0⟩)))

theorem Reached.left (hs : node.Reached storage s) (hqueue : ∀ info ∈ queue, SparesInfo info)
    (h : Ends (node.run queue ending) (fun _ _ => True) s) :
    node.Reached storage (left (node.run queue ending) s) := by
  obtain ⟨r, hrun, -⟩ := run_left h
  exact .run hs hqueue hrun

theorem reached_threeProcesses :
    sampleNode.Reached ⟨fun _ => none, fun _ => none, 0⟩ threeProcesses := by
  have hqueue (height : UInt64) : ∀ info ∈ [sampleInfo height], SparesInfo info := by
    intro info hinfo
    cases List.mem_singleton.mp hinfo
    exact sparesInfo_sample height
  exact .left (.left (.left .untouched nofun (by decide +kernel)) (hqueue 2) (by decide +kernel))
    (hqueue 3) (by decide +kernel)

theorem genesis_once_threeProcesses :
    threeProcesses.served.length = 2 ∧ (committedGenesis threeProcesses).length ≤ 1 :=
  ⟨by decide +kernel, (genesis_once trusted subset_rfl reached_threeProcesses).1⟩

/-- Whatever the next process reads, it is what was there at first with some of the writes that
were asked for, each of them whole and in their order; all writes that were confirmed are among
them, and so are all blocks that were answered with a root. -/
theorem confirmed_writes_survive (m : node.Trusted) (hstart : m.survivors storage ⊆ {m.start})
    (h : node.Reached storage s) {contents : KeyValues}
    (hcontents : contents ∈ m.survivors s.storage.store) :
    ∃ survived : List (Write crypto G),
      contents = survived.foldl (applyWrite node.genesisCodec) m.start ∧
      survived.Sublist s.storage.requested ∧ s.storage.confirmed.Sublist survived ∧
      (acknowledged s).Sublist (survived.filterMap Write.info) := by
  obtain ⟨hanswered, writes, n, hrests, -⟩ := atRest_of_reached hstart h
  obtain ⟨k, hk, rfl⟩ := hrests.keeps hcontents
  have hconfirmed := hrests.confirmed_of_le hk
  refine ⟨writes.take k, rfl, (List.take_sublist _ _).trans hrests.requested, hconfirmed, ?_⟩
  rw [← show s.storage.confirmed.filterMap Write.info = acknowledged s from hanswered]
  exact hconfirmed.filterMap Write.info

theorem confirmed_writes_survive_threeProcesses :
    (acknowledged threeProcesses).length = 2 ∧
      ∃ survived : List (Write sampleCrypto UInt64),
        (acknowledged threeProcesses).Sublist (survived.filterMap Write.info) := by
  obtain ⟨survived, -, -, -, hblocks⟩ := confirmed_writes_survive trusted
    subset_rfl reached_threeProcesses rfl
  exact ⟨by decide +kernel, survived, hblocks⟩

end Evolve.Evnode.ExternalConsensusNode
