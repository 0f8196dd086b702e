import Mathlib
import Evolve.Lib.Concat
import Evolve.Rpc.Service

/-! What the projected state root is the hash of.  Every change is written with a tag and with the
lengths of its parts, so that the bytes determine the base root and the changes. -/

namespace Evolve.Evnode

open Machine Effects Eth Concat

/-- What is hashed where there are changes. -/
def stateRootPreimage (baseStateRoot : B256) (changes : List CoreStateChange) : Bytes :=
  baseStateRoot.bytes ++ changes.flatMap encodeChange

/-- The lengths fit into the 32 bits that they are written with. -/
def LengthsFit : CoreStateChange → Prop
  | .set key value => key.length < 2 ^ 32 ∧ value.length < 2 ^ 32
  | .remove key => key.length < 2 ^ 32

theorem encodeChange_ne_nil (change : CoreStateChange) : encodeChange change ≠ [] := by
  cases change <;> simp [encodeChange]

theorem delimited_encodeChange : Delimited LengthsFit encodeChange := by
  intro a b r s ha hb h
  cases a with
  | set key value =>
    cases b with
    | set key' value' =>
      have hparts := (delimited_prefixed 4).append (delimited_prefixed 4)
      have hbytes : (prefixed 4 key ++ prefixed 4 value) ++ r =
          (prefixed 4 key' ++ prefixed 4 value') ++ s := (List.cons.inj h).2
      obtain ⟨hpair, hrest⟩ := hparts (a := (key, value)) (b := (key', value')) ha hb hbytes
      cases hpair
      exact ⟨rfl, hrest⟩
    | remove key' => exact absurd (List.cons.inj h).1 (by decide)
  | remove key =>
    cases b with
    | set key' value' => exact absurd (List.cons.inj h).1 (by decide)
    | remove key' =>
      obtain ⟨rfl, hrest⟩ := delimited_prefixed 4 ha hb (List.cons.inj h).2
      exact ⟨rfl, hrest⟩

/-- For all base roots and all lists of changes with lengths below `2 ^ 32`, the bytes determine
both; so two projected roots of such lists are equal only for the same root and changes, or if the
hash function has the same value on different bytes. -/
theorem stateRootPreimage_determines (crypto : Crypto) {base base' : B256}
    {changes changes' : List CoreStateChange} (hne : changes ≠ []) (hne' : changes' ≠ [])
    (hfit : ∀ change ∈ changes, LengthsFit change)
    (hfit' : ∀ change ∈ changes', LengthsFit change) :
    (stateRootPreimage base changes = stateRootPreimage base' changes' →
      base = base' ∧ changes = changes') ∧
    (computeStateRoot crypto base changes = computeStateRoot crypto base' changes' →
      (base = base' ∧ changes = changes') ∨
        (stateRootPreimage base changes ≠ stateRootPreimage base' changes' ∧
          crypto.keccak256 (stateRootPreimage base changes) =
            crypto.keccak256 (stateRootPreimage base' changes'))) := by
  have hdetermines (h : stateRootPreimage base changes = stateRootPreimage base' changes') :
      base = base' ∧ changes = changes' := by
    obtain ⟨hbase, hchanges⟩ := List.append_inj h (base.length_eq.trans base'.length_eq.symm)
    exact ⟨FixedBytes.ext hbase, delimited_encodeChange.flatMap_inj
      (fun change _ => encodeChange_ne_nil change) hfit hfit' hchanges⟩
  refine ⟨hdetermines, fun hroot => ?_⟩
  have hhash (base : B256) {changes : List CoreStateChange} (hne : changes ≠ []) :
      computeStateRoot crypto base changes =
        crypto.keccak256 (stateRootPreimage base changes) :=
    if_neg (by simpa using hne)
  rw [hhash base hne, hhash base' hne'] at hroot
  by_cases hsame : stateRootPreimage base changes = stateRootPreimage base' changes'
  · exact .inl (hdetermines hsame)
  · exact .inr ⟨hsame, hroot⟩

/-- A key that ends where the value of another change begins. -/
theorem stateRootPreimage_determines_split :
    stateRootPreimage (.repeatByte 32 0) [.set [1] [2, 3]] ≠
      stateRootPreimage (.repeatByte 32 0) [.set [1, 2] [3]] := by
  intro h
  have hfit : ∀ change ∈ [CoreStateChange.set [1] [2, 3]], LengthsFit change := by
    simp [LengthsFit]
  have hfit' : ∀ change ∈ [CoreStateChange.set [1, 2] [3]], LengthsFit change := by
    simp [LengthsFit]
  obtain ⟨-, hchanges⟩ := (stateRootPreimage_determines sampleCrypto
    (List.cons_ne_nil _ _) (List.cons_ne_nil _ _) hfit hfit').1 h
  cases hchanges

/-! ### The roots of a chain -/

section

variable (crypto : Crypto) (base : B256)

/-- The root after blocks with these changes.  The last block comes first. -/
def chainRoot : List (List CoreStateChange) → B256
  | [] => base
  | changes :: earlier => computeStateRoot crypto (chainRoot earlier) changes

/-- What is hashed on the way. -/
def hashedOf : List (List CoreStateChange) → List Bytes
  | [] => []
  | changes :: earlier =>
    stateRootPreimage (chainRoot crypto base earlier) changes :: hashedOf earlier

end

/-- The root after as many blocks is the same only for the same root before them and the same
changes in each, or if two of the byte strings that were hashed collide. -/
theorem chainRoot_determines (crypto : Crypto) {base base' : B256}
    {blocks blocks' : List (List CoreStateChange)} (hlength : blocks.length = blocks'.length)
    (hfit : ∀ changes ∈ blocks ++ blocks', changes ≠ [] ∧ ∀ change ∈ changes, LengthsFit change)
    (h : chainRoot crypto base blocks = chainRoot crypto base' blocks') :
    (base = base' ∧ blocks = blocks') ∨ ∃ a ∈ hashedOf crypto base blocks,
      ∃ b ∈ hashedOf crypto base' blocks', a ≠ b ∧ crypto.keccak256 a = crypto.keccak256 b := by
  -- from the last block back to the first
  induction blocks generalizing blocks' with
  | nil =>
    cases List.length_eq_zero_iff.mp hlength.symm
    exact .inl ⟨h, rfl⟩
  | cons changes blocks ih =>
    obtain ⟨changes', blocks', rfl⟩ := List.exists_cons_of_length_eq_add_one hlength.symm
    obtain ⟨hne, hfits⟩ := hfit changes (by simp)
    obtain ⟨hne', hfits'⟩ := hfit changes' (by simp)
    by_cases hsame : stateRootPreimage (chainRoot crypto base blocks) changes =
        stateRootPreimage (chainRoot crypto base' blocks') changes'
    · obtain ⟨hroot, hchanges⟩ := List.append_inj hsame
        ((FixedBytes.length_eq _).trans (FixedBytes.length_eq _).symm)
      have hlast := delimited_encodeChange.flatMap_inj
        (fun change _ => encodeChange_ne_nil change) hfits hfits' hchanges
      rcases ih (Nat.succ.inj hlength) (fun changes hmem => hfit changes (by simp at hmem ⊢; tauto))
        (FixedBytes.ext hroot) with ⟨hbase, hblocks⟩ | ⟨a, ha, b, hb, hcollide⟩
      · exact .inl ⟨hbase, by rw [hlast, hblocks]⟩
      · exact .inr ⟨a, .tail _ ha, b, .tail _ hb, hcollide⟩
    · refine .inr ⟨_, .head _, _, .head _, hsame, ?_⟩
      simpa [chainRoot, computeStateRoot, stateRootPreimage, hne, hne'] using h

/-- Two chains of two blocks that differ in the first one. -/
theorem chainRoot_determines_sample :
    ∃ a ∈ hashedOf sampleCrypto (.repeatByte 32 0) [[.set [3] [4]], [.set [1] [2]]],
      ∃ b ∈ hashedOf sampleCrypto (.repeatByte 32 0) [[.set [3] [4]], [.remove [1]]],
        a ≠ b ∧ sampleCrypto.keccak256 a = sampleCrypto.keccak256 b := by
  have hlength : [[CoreStateChange.set [3] [4]], [.set [1] [2]]].length =
      [[CoreStateChange.set [3] [4]], [.remove [1]]].length := rfl
  have hdetermines := chainRoot_determines sampleCrypto hlength
    (by simp [LengthsFit]) (show chainRoot _ (.repeatByte 32 0) _ = chainRoot _ (.repeatByte 32 0) _
      by decide)
  exact hdetermines.resolve_left nofun

/-! ### The roots that requests record -/

namespace ExecutorServiceImpl

variable {crypto : Crypto}

variable {service : ExecutorServiceImpl crypto} {fuel : Nat} {s s' : ExecutorState crypto}

end ExecutorServiceImpl

end Evolve.Evnode
