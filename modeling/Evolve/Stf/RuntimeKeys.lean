import Mathlib
import Evolve.Stf.Accounts
import Evolve.Stf.Snapshots
import Evolve.Stf.Transaction

/-! The keys that a block can change.  Whatever code the accounts run, a block writes codes of
accounts, the account counter and storage of accounts, and nothing else. -/

namespace Evolve

open Machine Effects Std

/-- The keys of the runtime, each under a byte of its own. -/
inductive RuntimeKey : Bytes → Prop
  | code (account : AccountId) : RuntimeKey (accountCodeIdentifierKey account)
  | number : RuntimeKey accountNumberKey
  | storage (account : AccountId) (key : Bytes) :
      RuntimeKey (Invoker.accountStorageKey account key)

theorem RuntimeKey.head_le {key : Bytes} (h : RuntimeKey key) : ∃ first rest, key = first :: rest ∧
    first ≤ 2 := by
  cases h with
  | code account => exact ⟨0, _, rfl, by decide⟩
  | number => exact ⟨1, _, rfl, by decide⟩
  | storage account key => exact ⟨2, _, rfl, by decide⟩

/-- Only keys of the runtime are new in the overlay, and what is below it is the same. -/
structure World.AddsRuntimeKeys (w w' : World) : Prop where
  base : w'.storage.baseStorage = w.storage.baseStorage
  keys : ∀ key ∈ w'.storage.overlay, key ∈ w.storage.overlay ∨ RuntimeKey key

namespace World.AddsRuntimeKeys

variable {w w' w'' : World} {s : ExecutionState} {key : Bytes}

theorem refl (w : World) : w.AddsRuntimeKeys w := ⟨rfl, fun _ => .inl⟩

theorem trans (h : w.AddsRuntimeKeys w') (h' : w'.AddsRuntimeKeys w'') : w.AddsRuntimeKeys w'' := by
  refine ⟨h'.base.trans h.base, fun key hkey => ?_⟩
  rcases h'.keys key hkey with hkey | hkey
  · exact h.keys key hkey
  · exact .inr hkey

theorem of_same (hbase : w'.storage.baseStorage = w.storage.baseStorage)
    (h : w'.storage.overlay = w.storage.overlay) : w.AddsRuntimeKeys w' :=
  ⟨hbase, fun _ hkey => .inl (h ▸ hkey)⟩

theorem of_write {entry : Option Message}
    {change : Bytes → Bool → Option (Option Message) → StateChange}
    (h : w.storage.write key entry change = .ok w'.storage) (hkey : RuntimeKey key) :
    w.AddsRuntimeKeys w' := by
  have hrecord := (ExecutionState.write_ok h).1
  refine ⟨by rw [hrecord]; rfl, fun k hk => ?_⟩
  rw [hrecord] at hk
  rcases ExtTreeMap.mem_insert.mp hk with heq | hk
  · rw [← LawfulEqCmp.eq_of_compare heq]
    exact .inr hkey
  · exact .inl hk

theorem of_set {value : Message} (h : w.storage.set key value = .ok w'.storage)
    (hkey : RuntimeKey key) : w.AddsRuntimeKeys w' :=
  of_write (ExecutionState.set_ok h).2.2 hkey

end World.AddsRuntimeKeys

open World.AddsRuntimeKeys in
theorem addsRuntimeKeys_callRule (host : Host) : CallRule host World.AddsRuntimeKeys where
  refl := refl
  trans _ _ _ := trans
  countRead _ := of_same rfl rfl
  charge _ _ w := wp_charge (fun _ _ => of_same rfl rfl) fun _ _ => refl w
  checkpoint _ := of_same rfl rfl
  nextUniqueObjectId _ := of_same rfl rfl
  emitEvent _ w := by
    refine wp_update (fun s h => ?_) fun _ _ => refl w
    unfold ExecutionState.emitEvent at h
    split at h
    · cases h
    · cases h
      exact of_same rfl rfl
  set account key _ w := wp_update (fun _ h => of_set h (.storage account key)) fun _ _ => refl w
  remove account key w := wp_update
    (fun _ h => of_write (ExecutionState.remove_ok h).2 (.storage account key)) fun _ _ => refl w
  allocateAccount codeId w := by
    have hread : w.AddsRuntimeKeys w.countRead := of_same rfl rfl
    refine wp_allocateAccount (fun _ => hread) ?_ ?_
    · intro number message s _ _ hs e
      exact hread.trans (of_set hs .number)
    · intro number message s codeMessage s' _ _ hs hs'
      have hnumber : w.countRead.AddsRuntimeKeys { w with storage := s } := of_set hs .number
      have hcode : World.AddsRuntimeKeys { w with storage := s }
          ⟨s', w.gasCounter, .create w.storage number :: w.history⟩ := of_set hs' (.code number)
      exact hread.trans (hnumber.trans hcode)
  claimAccount account codeId w _ := by
    refine wp_claimAccount ?_ fun e c => of_same rfl rfl
    intro message c s _ _ hs
    exact of_set hs (.code account)
  switchCode account codeId w := by
    have hread : w.AddsRuntimeKeys w.countRead := of_same rfl rfl
    refine wp_switchCode (fun _ => hread) ?_
    intro message s _ hs
    exact hread.trans (of_set hs (.code account))
  rollback _ _ _ h := of_same h.base rfl

theorem ExecutionState.mem_overlay_of_mem_intoChanges {s : ExecutionState}
    {change : CoreStateChange} (h : change ∈ s.intoChanges) : changeKey change ∈ s.overlay := by
  obtain ⟨⟨key, entry⟩, hentry, rfl⟩ := List.mem_map.mp (List.mem_mergeSort.mp h)
  have hkey : changeKey (coreStateChange (key, entry)) = key := by cases entry <;> rfl
  rw [hkey, ExtTreeMap.mem_iff_isSome_getElem?,
    ExtTreeMap.mem_toList_iff_getElem?_eq_some.mp hentry]
  rfl

section

variable {Tx Block : Type} [Transaction Tx] [BlockTrait Block Tx] {host : Host} {fuel : Nat}
  {stf : Stf Tx Block} {block : Block} {storage : ReadonlyKV} {gasCounter : GasCounter}
  {history : List AccountOp} {w : World} {r : SdkResult (BlockResult × List Tx)}
  (h : Stf.applyBlock host fuel stf block ⟨.new storage, gasCounter, history⟩ = .done (r, w))
include h

theorem applyBlock_addsRuntimeKeys :
    World.AddsRuntimeKeys ⟨.new storage, gasCounter, history⟩ w := by
  have hkeeps : Exec.Keeps World.AddsRuntimeKeys (Stf.applyBlock host fuel stf block) :=
    Stf.keeps_applyBlock fuel (addsRuntimeKeys_callRule host) (fun _ => .of_same rfl rfl)
      (fun _ _ => .of_same rfl rfl) block
  exact Exec.wp_done (hkeeps _) h

theorem applyBlock_changes_runtimeKeys :
    ∀ change ∈ w.storage.intoChanges, RuntimeKey (changeKey change) := by
  intro change hchange
  rcases (applyBlock_addsRuntimeKeys h).keys _
    (ExecutionState.mem_overlay_of_mem_intoChanges hchange) with hold | hkey
  · exact absurd hold ExtTreeMap.not_mem_empty
  · exact hkey

theorem applyBlock_changes_lookup (key : Bytes) :
    ExecutionState.applyChanges storage w.storage.intoChanges key = w.storage.lookup key := by
  have hbase : w.storage.baseStorage = storage := (applyBlock_addsRuntimeKeys h).base
  rw [← hbase]
  exact ExecutionState.applyChanges_changesOf
    (ExecutionState.enumerates_toList w.storage.overlay) key

end

end Evolve
