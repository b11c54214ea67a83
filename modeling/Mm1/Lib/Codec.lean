import Mathlib.Data.Nat.Basic
import Mathlib.Tactic.Ring

/-!
# Byte codes

A `Codec α` writes a value as bytes and reads it back from the front of any bytes that start with
them. The law is a field, so that a code that is put together from codes (`pair`, `filterMap`,
`option`) has it by construction, and so is a bound on the length, which is what a frame of a fixed
size needs.

The integers are those of the variable-length encoding of `bincode`: a number below 251 is one
byte, and the bytes 251, 252 and 253 announce 2, 4 and 8 bytes in little-endian order.
-/

universe u

/-- The first `n` bytes and the rest, if there are as many. -/
def readExact (n : ℕ) (bytes : List UInt8) : Option (List UInt8 × List UInt8) :=
  if n ≤ bytes.length then some (bytes.take n, bytes.drop n) else none

theorem readExact_eq_some_iff {n : ℕ} {bytes buf rest : List UInt8} :
    readExact n bytes = some (buf, rest) ↔ bytes = buf ++ rest ∧ buf.length = n := by
  rw [readExact]
  constructor
  · intro h
    split at h
    · next hle =>
      simp only [Option.some.injEq, Prod.mk.injEq] at h
      obtain ⟨rfl, rfl⟩ := h
      exact ⟨(List.take_append_drop n bytes).symm, List.length_take_of_le hle⟩
    · exact absurd h (Option.some_ne_none _).symm
  · rintro ⟨rfl, rfl⟩
    rw [if_pos (by simp), List.take_left, List.drop_left]

theorem readExact_append (buf rest : List UInt8) :
    readExact buf.length (buf ++ rest) = some (buf, rest) :=
  readExact_eq_some_iff.mpr ⟨rfl, rfl⟩

/-- A code: how a value is written, and how it is read from the front of some bytes. -/
structure Codec (α : Type u) where
  encode : α → List UInt8
  decode : List UInt8 → Option (α × List UInt8)
  /-- A bound on the number of bytes. -/
  maxLength : ℕ
  length_encode_le : ∀ a, (encode a).length ≤ maxLength
  decode_encode : ∀ a rest, decode (encode a ++ rest) = some (a, rest)

namespace Codec

open List

variable {α β : Type u}

attribute [simp] decode_encode

/-- A byte is written as it is. -/
def byte : Codec UInt8 where
  encode b := [b]
  decode
    | [] => none
    | b :: rest => some (b, rest)
  maxLength := 1
  length_encode_le _ := le_rfl
  decode_encode _ _ := rfl

/-- As many bytes as the type says, as they are. -/
def bytes (n : ℕ) : Codec {b : List UInt8 // b.length = n} where
  encode b := b.1
  decode input :=
    if h : n ≤ input.length then some (⟨input.take n, length_take_of_le h⟩, input.drop n)
    else none
  maxLength := n
  length_encode_le b := b.2.le
  decode_encode := by
    rintro ⟨b, rfl⟩ rest
    simp

/-- One value after another. -/
def pair (c : Codec α) (d : Codec β) : Codec (α × β) where
  encode p := c.encode p.1 ++ d.encode p.2
  decode input := do
    let (a, rest) ← c.decode input
    let (b, rest) ← d.decode rest
    return ((a, b), rest)
  maxLength := c.maxLength + d.maxLength
  length_encode_le p := by
    rw [length_append]
    exact Nat.add_le_add (c.length_encode_le _) (d.length_encode_le _)
  decode_encode p rest := by simp

/-- A value is written as another one, and what is read is checked. -/
def filterMap (c : Codec α) (f : α → Option β) (g : β → α) (h : ∀ b, f (g b) = some b) :
    Codec β where
  encode b := c.encode (g b)
  decode input := do
    let (a, rest) ← c.decode input
    let b ← f a
    return (b, rest)
  maxLength := c.maxLength
  length_encode_le b := c.length_encode_le _
  decode_encode b rest := by simp [h]

/-- A value is written as another one. -/
def map (c : Codec α) (f : α → β) (g : β → α) (h : Function.LeftInverse f g) : Codec β :=
  c.filterMap (fun a => some (f a)) g fun b => congrArg some (h b)

/-- A truth value is a byte `0` or `1`. -/
def bool : Codec Bool :=
  byte.filterMap (fun b => if b = 0 then some false else if b = 1 then some true else none)
    (fun b => if b then 1 else 0) fun b => by cases b <;> decide

/-- A byte `0`, or a byte `1` and a value. -/
def option (c : Codec α) : Codec (Option α) where
  encode
    | none => [0]
    | some a => 1 :: c.encode a
  decode
    | [] => none
    | b :: rest =>
      if b = 0 then some (none, rest)
      else if b = 1 then (c.decode rest).map fun p => (some p.1, p.2)
      else none
  maxLength := c.maxLength + 1
  length_encode_le
    | none => Nat.le_add_left _ _
    | some a => Nat.succ_le_succ (c.length_encode_le a)
  decode_encode
    | none, rest => rfl
    | some a, rest => by simp

/-! ### Integers -/

/-- The `k` low bytes of a number, the lowest first. -/
def leBytes : ℕ → ℕ → List UInt8
  | 0, _ => []
  | k + 1, n => UInt8.ofNat n :: leBytes k (n / 256)

/-- The number of some bytes, the lowest first. -/
def ofLeBytes : List UInt8 → ℕ
  | [] => 0
  | b :: bs => b.toNat + 256 * ofLeBytes bs

theorem length_leBytes (k n : ℕ) : (leBytes k n).length = k := by
  induction k generalizing n with
  | zero => rfl
  | succ k ih => rw [leBytes, length_cons, ih]

theorem ofLeBytes_leBytes {k n : ℕ} (h : n < 256 ^ k) : ofLeBytes (leBytes k n) = n := by
  induction k generalizing n with
  | zero => rw [leBytes, ofLeBytes]; omega
  | succ k ih =>
    have hdiv : n / 256 < 256 ^ k := Nat.div_lt_of_lt_mul (by rwa [pow_succ'] at h)
    rw [leBytes, ofLeBytes, ih hdiv, UInt8.toNat_ofNat']
    exact Nat.mod_add_div n 256

/-- A number of `k` bytes from the front of some bytes. -/
def readLe (k : ℕ) (input : List UInt8) : Option (ℕ × List UInt8) :=
  (readExact k input).map fun p => (ofLeBytes p.1, p.2)

theorem readLe_leBytes {k n : ℕ} (h : n < 256 ^ k) (rest : List UInt8) :
    readLe k (leBytes k n ++ rest) = some (n, rest) := by
  have hread := readExact_append (leBytes k n) rest
  rw [length_leBytes] at hread
  rw [readLe, hread, Option.map_some, ofLeBytes_leBytes h]

/-- The variable-length encoding. -/
def encodeVarint (n : ℕ) : List UInt8 :=
  if n < 251 then [UInt8.ofNat n]
  else if n < 2 ^ 16 then 251 :: leBytes 2 n
  else if n < 2 ^ 32 then 252 :: leBytes 4 n
  else 253 :: leBytes 8 n

/-- A number of at most `size` bytes from the front of some bytes. -/
def decodeVarint (size : ℕ) : List UInt8 → Option (ℕ × List UInt8)
  | [] => none
  | b :: rest =>
    if b.toNat < 251 then some (b.toNat, rest)
    else if b = 251 ∧ 2 ≤ size then readLe 2 rest
    else if b = 252 ∧ 4 ≤ size then readLe 4 rest
    else if b = 253 ∧ 8 ≤ size then readLe 8 rest
    else none

/-- The sizes of the integer types that are longer than a byte. -/
inductive IntSize
  | two
  | four
  | eight

/-- The number of bytes. -/
def IntSize.bytes : IntSize → ℕ
  | two => 2
  | four => 4
  | eight => 8

theorem length_encodeVarint_le {size : IntSize} {n : ℕ} (h : n < 256 ^ size.bytes) :
    (encodeVarint n).length ≤ size.bytes + 1 := by
  rw [encodeVarint]
  cases size <;> simp only [IntSize.bytes] at h ⊢ <;>
    split_ifs <;> simp only [length_cons, length_nil, length_leBytes] <;> omega

/-- A number is read back. -/
theorem decodeVarint_encodeVarint {size : IntSize} {n : ℕ} (h : n < 256 ^ size.bytes)
    (rest : List UInt8) :
    decodeVarint size.bytes (encodeVarint n ++ rest) = some (n, rest) := by
  have hwide (k : ℕ) (hk : n < 256 ^ k) := readLe_leBytes hk rest
  rw [encodeVarint]
  -- A number that needs `k` bytes is of a type with at least as many.
  split_ifs with hone htwo hfour
  · have hbyte : (UInt8.ofNat n).toNat = n := by
      rw [UInt8.toNat_ofNat']
      exact Nat.mod_eq_of_lt (by omega)
    rw [singleton_append, decodeVarint, hbyte, if_pos hone]
  · rw [cons_append, decodeVarint, if_neg (by decide), if_pos ⟨rfl, by cases size <;> decide⟩]
    exact hwide 2 htwo
  · have hsize : 4 ≤ size.bytes := by
      cases size with
      | two => exact absurd h htwo
      | four => exact le_rfl
      | eight => decide
    rw [cons_append, decodeVarint, if_neg (by decide),
      if_neg (fun h => absurd h.1 (by decide)), if_pos ⟨rfl, hsize⟩]
    exact hwide 4 hfour
  · have hsize : size = .eight := by
      cases size with
      | two => exact absurd h htwo
      | four => exact absurd h hfour
      | eight => rfl
    subst hsize
    rw [cons_append, decodeVarint, if_neg (by decide),
      if_neg (fun h => absurd h.1 (by decide)), if_neg (fun h => absurd h.1 (by decide)),
      if_pos ⟨rfl, le_rfl⟩]
    exact hwide 8 h

/-- The integers of a size. -/
def varint (size : IntSize) : Codec (Fin (256 ^ size.bytes)) where
  encode n := encodeVarint n
  decode input := do
    let (n, rest) ← decodeVarint size.bytes input
    if h : n < 256 ^ size.bytes then some (⟨n, h⟩, rest) else none
  maxLength := size.bytes + 1
  length_encode_le n := length_encodeVarint_le n.2
  decode_encode n rest := by simp [decodeVarint_encodeVarint n.2]

def u16 : Codec UInt16 :=
  (varint .two).map (fun n => UInt16.ofNat n) (fun n => ⟨n.toNat, n.toNat_lt⟩)
    fun _ => UInt16.ofNat_toNat

def u32 : Codec UInt32 :=
  (varint .four).map (fun n => UInt32.ofNat n) (fun n => ⟨n.toNat, n.toNat_lt⟩)
    fun _ => UInt32.ofNat_toNat

def u64 : Codec (BitVec 64) :=
  (varint .eight).map (fun n => BitVec.ofNat 64 n) (fun n => ⟨n.toNat, n.isLt⟩)
    fun n => (n.ofNat_toNat 64).trans n.setWidth_eq

/-! ### Bounds -/

section MaxLength

variable (c : Codec α) (d : Codec β)

@[simp] theorem maxLength_byte : byte.maxLength = 1 := rfl

@[simp] theorem maxLength_bytes (n : ℕ) : (bytes n).maxLength = n := rfl

@[simp] theorem maxLength_bool : bool.maxLength = 1 := rfl

@[simp] theorem maxLength_u16 : u16.maxLength = 3 := rfl

@[simp] theorem maxLength_u32 : u32.maxLength = 5 := rfl

@[simp] theorem maxLength_u64 : u64.maxLength = 9 := rfl

@[simp] theorem maxLength_pair : (c.pair d).maxLength = c.maxLength + d.maxLength := rfl

@[simp] theorem maxLength_option : c.option.maxLength = c.maxLength + 1 := rfl

@[simp] theorem maxLength_filterMap (f : α → Option β) (g : β → α)
    (h : ∀ b, f (g b) = some b) : (c.filterMap f g h).maxLength = c.maxLength := rfl

@[simp] theorem maxLength_map (f : α → β) (g : β → α) (h : Function.LeftInverse f g) :
    (c.map f g h).maxLength = c.maxLength := rfl

end MaxLength

/-! ### Frames -/

/-- Bytes in a buffer of zeros. -/
def pad (size : ℕ) (b : List UInt8) : List UInt8 := b ++ List.replicate (size - b.length) 0

theorem length_pad {size : ℕ} {b : List UInt8} (h : b.length ≤ size) :
    (pad size b).length = size := by
  rw [pad, length_append, length_replicate]
  omega

theorem decode_pad (c : Codec α) (size : ℕ) (a : α) :
    c.decode (pad size (c.encode a)) =
      some (a, List.replicate (size - (c.encode a).length) 0) :=
  c.decode_encode a _

end Codec
