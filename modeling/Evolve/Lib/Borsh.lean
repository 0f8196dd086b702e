import Mathlib
import Evolve.Lib.Machine

/-! Borsh encodings.  A codec carries the proof that decoding an encoding, whatever bytes follow it,
gives back the value and those bytes; records are built from their fields, so that they carry it
too. -/

namespace Borsh

open Machine

def takeBytes (n : Nat) (bs : Bytes) : Option (Bytes × Bytes) :=
  if n ≤ bs.length then some (bs.take n, bs.drop n) else none

theorem takeBytes_append {n : Nat} {bs : Bytes} (h : bs.length = n) (rest : Bytes) :
    takeBytes n (bs ++ rest) = some (bs, rest) := by
  subst h
  simp [takeBytes]

/-- An encoding of `α`.  `encode` fails when a length does not fit in four bytes, and `decode`
returns the value with the bytes after it. -/
structure Codec (α : Type) where
  encode : α → Option Bytes
  decode : Bytes → Option (α × Bytes)
  decode_encode : ∀ {a bs}, encode a = some bs → ∀ rest, decode (bs ++ rest) = some (a, rest)

namespace Codec

variable {α β : Type}

/-- Decodes a byte string that holds one value and nothing else. -/
def fromSlice (c : Codec α) (bs : Bytes) : Option α :=
  match c.decode bs with
  | some (a, []) => some a
  | _ => none

theorem fromSlice_encode (c : Codec α) {a : α} {bs : Bytes} (h : c.encode a = some bs) :
    c.fromSlice bs = some a := by
  have := c.decode_encode h []
  rw [List.append_nil] at this
  simp [fromSlice, this]

def unit : Codec Unit where
  encode _ := some []
  decode bs := some ((), bs)
  decode_encode h rest := by cases h; rfl

def nat (n : Nat) : Codec Nat where
  encode x := if x < 256 ^ n then some (leBytes n x) else none
  decode bs := (takeBytes n bs).map fun p => (leNat p.1, p.2)
  decode_encode {x bs} h rest := by
    split at h
    · rename_i hx
      cases h
      rw [takeBytes_append (length_leBytes n x), Option.map_some, leNat_leBytes,
        Nat.mod_eq_of_lt hx]
    · cases h

def fixed (n : Nat) : Codec (FixedBytes n) where
  encode x := some x.bytes
  decode bs := if h : n ≤ bs.length then
      some (⟨bs.take n, List.length_take_of_le h⟩, bs.drop n)
    else none
  decode_encode {x bs} h rest := by
    cases h
    have hn : n ≤ (x.bytes ++ rest).length := by simp [x.length_eq]
    have htake : (x.bytes ++ rest).take n = x.bytes := by
      rw [List.take_append_of_le_length (by simp [x.length_eq]), List.take_of_length_le]
      simp [x.length_eq]
    have hdrop : (x.bytes ++ rest).drop n = rest := by
      rw [List.drop_append_of_le_length (by simp [x.length_eq]), List.drop_eq_nil_of_le]
      · rfl
      · simp [x.length_eq]
    simp only [hn, dif_pos, hdrop, htake]

def pair (ca : Codec α) (cb : Codec β) : Codec (α × β) where
  encode p := (ca.encode p.1).bind fun xs => (cb.encode p.2).map fun ys => xs ++ ys
  decode bs := (ca.decode bs).bind fun p => (cb.decode p.2).map fun q => ((p.1, q.1), q.2)
  decode_encode {p bs} h rest := by
    obtain ⟨xs, hx, h⟩ := Option.bind_eq_some_iff.mp h
    obtain ⟨ys, hy, rfl⟩ := Option.map_eq_some_iff.mp h
    rw [List.append_assoc, ca.decode_encode hx, Option.bind_some, cb.decode_encode hy,
      Option.map_some]

/-- The encoding of `α` used for `β`, whose values `ofRaw` builds and `toRaw` takes apart. -/
def iso (c : Codec α) (ofRaw : α → β) (toRaw : β → α) (h : ∀ b, ofRaw (toRaw b) = b) :
    Codec β where
  encode b := c.encode (toRaw b)
  decode bs := (c.decode bs).map fun p => (ofRaw p.1, p.2)
  decode_encode {b bs} he rest := by
    rw [c.decode_encode he, Option.map_some, h]

/-- A value that passes the check `ofRaw`. -/
def checked (c : Codec α) (ofRaw : α → Option β) (toRaw : β → α)
    (h : ∀ b, ofRaw (toRaw b) = some b) : Codec β where
  encode b := c.encode (toRaw b)
  decode bs := (c.decode bs).bind fun p => (ofRaw p.1).map fun b => (b, p.2)
  decode_encode {b bs} he rest := by
    rw [c.decode_encode he, Option.bind_some, h, Option.map_some]

def sum (ca : Codec α) (cb : Codec β) : Codec (α ⊕ β) where
  encode
    | .inl a => (ca.encode a).map (0 :: ·)
    | .inr b => (cb.encode b).map (1 :: ·)
  decode
    | 0 :: bs => (ca.decode bs).map fun p => (.inl p.1, p.2)
    | 1 :: bs => (cb.decode bs).map fun p => (.inr p.1, p.2)
    | _ => none
  decode_encode {s bs} h rest := by
    cases s with
    | inl a =>
      obtain ⟨xs, hx, rfl⟩ := Option.map_eq_some_iff.mp h
      simp [ca.decode_encode hx]
    | inr b =>
      obtain ⟨xs, hx, rfl⟩ := Option.map_eq_some_iff.mp h
      simp [cb.decode_encode hx]

def option (c : Codec α) : Codec (Option α) :=
  (unit.sum c).iso (Sum.elim (fun _ => none) some) (fun o => o.elim (.inl ()) .inr) (by
    intro o
    cases o <;> rfl)

def encodeAll (c : Codec α) : List α → Option Bytes
  | [] => some []
  | a :: as => (c.encode a).bind fun xs => (encodeAll c as).map fun ys => xs ++ ys

def decodeAll (c : Codec α) : Nat → Bytes → Option (List α × Bytes)
  | 0, bs => some ([], bs)
  | n + 1, bs => (c.decode bs).bind fun p => (decodeAll c n p.2).map fun q => (p.1 :: q.1, q.2)

theorem decodeAll_encodeAll (c : Codec α) {as : List α} {bs : Bytes}
    (h : encodeAll c as = some bs) (rest : Bytes) :
    decodeAll c as.length (bs ++ rest) = some (as, rest) := by
  induction as generalizing bs with
  | nil => cases h; rfl
  | cons a as ih =>
    obtain ⟨xs, hx, h⟩ := Option.bind_eq_some_iff.mp h
    obtain ⟨ys, hy, rfl⟩ := Option.map_eq_some_iff.mp h
    simp [decodeAll, c.decode_encode hx, ih hy]

def list (c : Codec α) : Codec (List α) where
  encode as := ((nat 4).encode as.length).bind fun xs => (encodeAll c as).map fun ys => xs ++ ys
  decode bs := ((nat 4).decode bs).bind fun p => decodeAll c p.1 p.2
  decode_encode {as bs} h rest := by
    obtain ⟨xs, hx, h⟩ := Option.bind_eq_some_iff.mp h
    obtain ⟨ys, hy, rfl⟩ := Option.map_eq_some_iff.mp h
    rw [List.append_assoc, (nat 4).decode_encode hx, Option.bind_some, decodeAll_encodeAll c hy]

def bytes : Codec Bytes where
  encode xs := ((nat 4).encode xs.length).map fun len => len ++ xs
  decode bs := ((nat 4).decode bs).bind fun p => takeBytes p.1 p.2
  decode_encode {xs bs} h rest := by
    obtain ⟨len, hlen, rfl⟩ := Option.map_eq_some_iff.mp h
    rw [List.append_assoc, (nat 4).decode_encode hlen, Option.bind_some, takeBytes_append rfl]

def utf8 (s : String) : Bytes := s.toUTF8.data.toList

def fromUtf8 (bs : Bytes) : Option String := String.fromUTF8? ⟨bs.toArray⟩

theorem fromUtf8_utf8 (s : String) : fromUtf8 (utf8 s) = some s := by
  simp only [fromUtf8, utf8, String.fromUTF8?, Array.toArray_toList]
  exact dif_pos s.isValidUTF8

def string : Codec String := bytes.checked fromUtf8 utf8 fromUtf8_utf8

def u8 : Codec UInt8 := (nat 1).iso UInt8.ofNat UInt8.toNat fun _ => UInt8.ofNat_toNat

def u16 : Codec UInt16 := (nat 2).iso UInt16.ofNat UInt16.toNat fun _ => UInt16.ofNat_toNat

def u64 : Codec UInt64 := (nat 8).iso UInt64.ofNat UInt64.toNat fun _ => UInt64.ofNat_toNat

def u128 : Codec U128 :=
  (nat 16).iso (BitVec.ofNat 128) BitVec.toNat fun x => BitVec.eq_of_toNat_eq (by simp)

theorem fromSlice_iso (c : Codec α) (ofRaw : α → β) (toRaw : β → α) (h : ∀ b, ofRaw (toRaw b) = b)
    (bs : Bytes) : (c.iso ofRaw toRaw h).fromSlice bs = (c.fromSlice bs).map ofRaw := by
  unfold fromSlice iso
  dsimp only
  rcases c.decode bs with _ | ⟨a, _ | ⟨b, rest⟩⟩ <;> rfl

/-! ### Values of one size -/

/-- What holds one value and nothing else has `n` bytes. -/
def HasSize (c : Codec α) (n : Nat) : Prop := ∀ bs a, c.fromSlice bs = some a → bs.length = n

theorem length_of_drop_nil {n : Nat} {bs : Bytes} (hle : n ≤ bs.length) (hrest : bs.drop n = []) :
    bs.length = n :=
  Nat.le_antisymm (List.drop_eq_nil_iff.mp hrest) hle

theorem hasSize_nat (n : Nat) : (nat n).HasSize n := by
  intro bs x h
  unfold fromSlice nat takeBytes at h
  dsimp only at h
  split at h
  · rename_i hdecode
    split at hdecode
    · rename_i hle
      exact length_of_drop_nil hle (Prod.mk.inj (Option.some.inj hdecode)).2
    · cases hdecode
  · cases h

theorem hasSize_fixed (n : Nat) : (fixed n).HasSize n := by
  intro bs x h
  unfold fromSlice fixed at h
  dsimp only at h
  split at h
  · rename_i hdecode
    split at hdecode
    · rename_i hle
      exact length_of_drop_nil hle (Prod.mk.inj (Option.some.inj hdecode)).2
    · cases hdecode
  · cases h

theorem HasSize.iso {c : Codec α} {n : Nat} (hc : c.HasSize n) {ofRaw : α → β} {toRaw : β → α}
    {hraw : ∀ b, ofRaw (toRaw b) = b} : (c.iso ofRaw toRaw hraw).HasSize n := by
  intro bs b h
  rw [fromSlice_iso, Option.map_eq_some_iff] at h
  obtain ⟨a, ha, -⟩ := h
  exact hc bs a ha

theorem hasSize_u64 : u64.HasSize 8 := (hasSize_nat 8).iso

theorem hasSize_u128 : u128.HasSize 16 := (hasSize_nat 16).iso

/-! ### What can be encoded -/

def Encodes (c : Codec α) (a : α) : Prop := ∃ bs, c.encode a = some bs

theorem exists_append_iff (x y : Option Bytes) :
    (∃ bs, (x.bind fun xs => y.map fun ys => xs ++ ys) = some bs) ↔
      (∃ xs, x = some xs) ∧ ∃ ys, y = some ys := by
  cases x <;> cases y <;> simp

@[simp] theorem encodes_unit (u : Unit) : unit.Encodes u := ⟨_, rfl⟩

@[simp] theorem encodes_nat (n x : Nat) : (nat n).Encodes x ↔ x < 256 ^ n := by
  simp [Encodes, nat]

@[simp] theorem encodes_fixed (n : Nat) (x : FixedBytes n) : (fixed n).Encodes x := ⟨_, rfl⟩

@[simp] theorem encodes_pair (ca : Codec α) (cb : Codec β) (p : α × β) :
    (ca.pair cb).Encodes p ↔ ca.Encodes p.1 ∧ cb.Encodes p.2 := exists_append_iff _ _

@[simp] theorem encodes_iso (c : Codec α) (ofRaw : α → β) (toRaw : β → α)
    (h : ∀ b, ofRaw (toRaw b) = b) (b : β) :
    (c.iso ofRaw toRaw h).Encodes b ↔ c.Encodes (toRaw b) := Iff.rfl

@[simp] theorem encodes_inr (ca : Codec α) (cb : Codec β) (b : β) :
    (ca.sum cb).Encodes (.inr b) ↔ cb.Encodes b := by
  simp [Encodes, sum]

theorem encodes_option (c : Codec α) (o : Option α) :
    c.option.Encodes o ↔ ∀ a ∈ o, c.Encodes a := by
  cases o with
  | none => exact iff_of_true ⟨_, rfl⟩ (by simp)
  | some a =>
    refine (encodes_inr unit c a).trans ?_
    simp

theorem encodes_all (c : Codec α) (as : List α) :
    (∃ bs, encodeAll c as = some bs) ↔ ∀ a ∈ as, c.Encodes a := by
  induction as with
  | nil => simp [encodeAll]
  | cons a as ih =>
    rw [List.forall_mem_cons, ← ih]
    exact exists_append_iff _ _

theorem encodes_list (c : Codec α) (as : List α) :
    c.list.Encodes as ↔ as.length < 256 ^ 4 ∧ ∀ a ∈ as, c.Encodes a := by
  rw [← encodes_all, ← encodes_nat 4 as.length]
  exact exists_append_iff _ _

@[simp] theorem encodes_bytes (xs : Bytes) : bytes.Encodes xs ↔ xs.length < 256 ^ 4 := by
  rw [← encodes_nat]
  simp [Encodes, bytes]

@[simp] theorem encodes_string (s : String) : string.Encodes s ↔ (utf8 s).length < 256 ^ 4 :=
  encodes_bytes _

@[simp] theorem encodes_u16 (x : UInt16) : u16.Encodes x := (encodes_nat 2 _).mpr x.toNat_lt

@[simp] theorem encodes_u64 (x : UInt64) : u64.Encodes x := (encodes_nat 8 _).mpr x.toNat_lt

@[simp] theorem encodes_u128 (x : U128) : u128.Encodes x := (encodes_nat 16 _).mpr x.isLt

end Codec

end Borsh
