import Mm1.Lib.Radix

/-!
# Binary data as hexadecimal text

The codec of byte strings in human-readable formats (`mm1_common::serde::binary`). A byte is
written as two lower-case digits. Reading checks that the text has an even number of bytes, all of
them ASCII, and parses each two-byte window by `u8::from_str_radix`, which also takes a plus sign
before a single digit.

* `fromHex_toHex`: what is written is read back;
* `fromHex_exact_iff`: exactly the texts of hexadecimal digits are read, apart from those with a
  plus sign in front of a digit.
-/

namespace Mm1

open Radix List

namespace Binary

/-- The two digits of a byte, `{:02x}`. -/
def hexByte (b : UInt8) : List Char := [digitChar (b.toNat / 16), digitChar (b.toNat % 16)]

/-- `to_hex`. -/
def toHex (bytes : List UInt8) : String := String.ofList (bytes.flatMap hexByte)

/-- The walk over the two-byte windows, up to the first that is not a number. The outer `none` is
the panic of a window that ends after the text. -/
def fromHexPairs : List UInt8 → Option (Except String (List UInt8))
  | [] => some (.ok [])
  | [_] => none
  | a :: b :: rest =>
    match fromStrRadix 255 16 [a, b] with
    | .error e => some (.error e.display)
    | .ok v => (fromHexPairs rest).map fun r => r.map (UInt8.ofNat v :: ·)

/-- `from_hex`. -/
def fromHex (s : String) : Option (Except String (List UInt8)) :=
  let bytes := asBytes s
  if bytes.length % 2 ≠ 0 then some (.error "hex string must have even length")
  else if ¬ bytes.all (· < 128) then some (.error "hex string must be ASCII")
  else fromHexPairs bytes

/-- Every two bytes are related. -/
def Pairs (R : UInt8 → UInt8 → Prop) : List UInt8 → Prop
  | [] => True
  | [_] => False
  | a :: b :: rest => R a b ∧ Pairs R rest

/-- The two bytes are a number in radix `16`: a digit or a plus sign, then a digit. -/
def SignedDigits (a b : UInt8) : Prop := (IsHexDigit a ∨ a = ascii '+') ∧ IsHexDigit b

/-! ### Reading what was written -/

private theorem hexByte_ascii {b : UInt8} {c : Char} (hc : c ∈ hexByte b) : c.toNat < 128 := by
  have hb := b.toNat_lt
  rcases mem_cons.mp hc with rfl | hc
  · exact digitChar_ascii (by omega)
  · rw [mem_singleton.mp hc]
    exact digitChar_ascii (by omega)

private theorem asBytes_toHex (bytes : List UInt8) :
    asBytes (toHex bytes) = bytes.flatMap fun b => (hexByte b).map ascii := by
  rw [toHex, asBytes_ofList, map_flatMap]
  intro c hc
  obtain ⟨b, -, hc⟩ := mem_flatMap.mp hc
  exact hexByte_ascii hc

private theorem fromStrRadix_hexByte (b : UInt8) :
    fromStrRadix 255 16 ((hexByte b).map ascii) = .ok b.toNat := by
  have hb := b.toNat_lt
  refine fromStrRadix_pair.mpr (.inl ⟨b.toNat / 16, b.toNat % 16, ?_, ?_, by omega⟩)
  · exact toDigit_digitChar (by omega)
  · exact toDigit_digitChar (by omega)

/-- Hex digits are read back. -/
private theorem fromHexPairs_hexBytes (bytes : List UInt8) :
    fromHexPairs (bytes.flatMap fun b => (hexByte b).map ascii) = some (.ok bytes) := by
  induction bytes with
  | nil => rfl
  | cons b bytes ih =>
    have hb := fromStrRadix_hexByte b
    rw [flatMap_cons]
    change fromHexPairs (ascii (digitChar (b.toNat / 16)) :: ascii (digitChar (b.toNat % 16)) ::
      bytes.flatMap fun b => (hexByte b).map ascii) = _
    change fromStrRadix 255 16 [ascii (digitChar (b.toNat / 16)),
      ascii (digitChar (b.toNat % 16))] = _ at hb
    rw [fromHexPairs, hb]
    simp only [ih, Option.map_some, Except.map, UInt8.ofNat_toNat]

/-! ### What is read -/

namespace Pairs

variable {R : UInt8 → UInt8 → Prop} {Q : UInt8 → Prop}

private theorem length : ∀ {bs : List UInt8}, Pairs R bs → bs.length % 2 = 0
  | [], _ => rfl
  | [_], h => h.elim
  | _ :: _ :: rest, h => by
    have := length h.2
    simp only [length_cons]
    omega

private theorem forall_mem (hR : ∀ a b, R a b → Q a ∧ Q b) :
    ∀ {bs : List UInt8}, Pairs R bs → ∀ b ∈ bs, Q b
  | [], _ => by simp
  | [_], h => h.elim
  | a :: b :: rest, h => by
    obtain ⟨ha, hb⟩ := hR a b h.1
    have hrest := forall_mem hR h.2
    simp only [mem_cons]
    rintro c (rfl | rfl | hc)
    · exact ha
    · exact hb
    · exact hrest c hc

private theorem of_forall (hR : ∀ a b, Q a → Q b → R a b) :
    ∀ {bs : List UInt8}, bs.length % 2 = 0 → (∀ b ∈ bs, Q b) → Pairs R bs
  | [], _, _ => trivial
  | [_], hlen, _ => by simp at hlen
  | a :: b :: rest, hlen, h => by
    refine ⟨hR a b (h a (by simp)) (h b (by simp)), ?_⟩
    refine of_forall hR ?_ fun c hc => h c (by simp [hc])
    simp only [length_cons] at hlen
    omega

end Pairs

/-- The windows that are read. -/
private theorem exists_fromHexPairs_iff : ∀ {bs : List UInt8},
    (∃ v, fromHexPairs bs = some (.ok v)) ↔ Pairs SignedDigits bs
  | [] => ⟨fun _ => trivial, fun _ => ⟨[], rfl⟩⟩
  | [_] => by simp [fromHexPairs, Pairs]
  | a :: b :: rest => by
    have ih : (∃ v, fromHexPairs rest = some (.ok v)) ↔ Pairs SignedDigits rest :=
      exists_fromHexPairs_iff
    have hpair : (∃ n, fromStrRadix 255 16 [a, b] = .ok n) ↔ SignedDigits a b := by
      simp only [fromStrRadix_pair, SignedDigits, isHexDigit_iff]
      constructor
      · rintro ⟨n, ⟨x, y, hx, hy, -⟩ | ⟨ha, hn⟩⟩
        · exact ⟨.inl ⟨x, hx⟩, y, hy⟩
        · exact ⟨.inr ha, n, hn⟩
      · rintro ⟨⟨x, hx⟩ | ha, y, hy⟩
        · exact ⟨_, .inl ⟨x, y, hx, hy, rfl⟩⟩
        · exact ⟨y, .inr ⟨ha, hy⟩⟩
    rw [Pairs, ← ih, ← hpair, fromHexPairs]
    cases hn : fromStrRadix 255 16 [a, b] with
    | error e => simp
    | ok n =>
      cases hr : fromHexPairs rest with
      | none => simp
      | some r => cases r <;> simp [Except.map]

/-- A text of an even length never makes the walk panic. -/
private theorem fromHexPairs_isSome : ∀ {bs : List UInt8}, bs.length % 2 = 0 →
    (fromHexPairs bs).isSome
  | [], _ => rfl
  | [_], h => by simp at h
  | a :: b :: rest, h => by
    rw [fromHexPairs]
    split
    · rfl
    · rw [Option.isSome_map]
      refine fromHexPairs_isSome ?_
      simp only [length_cons] at h
      omega

private theorem lt_of_isHexDigit {b : UInt8} (h : IsHexDigit b) : b < 128 := by
  obtain ⟨d, hd⟩ := isHexDigit_iff.mp h
  rw [toDigit_sixteen] at hd
  rw [UInt8.lt_iff_toNat_lt]
  change b.toNat < 128
  omega

/-- The checks before the walk refuse nothing that the walk would read. -/
private theorem fromHex_ok_iff {s : String} {v : List UInt8} :
    fromHex s = some (.ok v) ↔ fromHexPairs (asBytes s) = some (.ok v) := by
  have hascii : ∀ a b, SignedDigits a b → a < 128 ∧ b < 128 := by
    rintro a b ⟨ha | rfl, hb⟩
    · exact ⟨lt_of_isHexDigit ha, lt_of_isHexDigit hb⟩
    · exact ⟨by decide, lt_of_isHexDigit hb⟩
  rw [fromHex]
  split_ifs with hlen hall
  · -- an odd length is refused by both
    refine iff_of_false (by simp) fun h => hlen ?_
    exact (exists_fromHexPairs_iff.mp ⟨v, h⟩).length
  · rfl
  · refine iff_of_false (by simp) fun h => hall ?_
    have := (exists_fromHexPairs_iff.mp ⟨v, h⟩).forall_mem hascii
    simpa using this

private theorem fromHex_isSome (s : String) : (fromHex s).isSome := by
  rw [fromHex]
  split_ifs with hlen hall
  · rfl
  · exact fromHexPairs_isSome (Decidable.not_not.mp hlen)
  · rfl

/-- What is written is read back. -/
private theorem fromHex_toHex (bytes : List UInt8) : fromHex (toHex bytes) = some (.ok bytes) := by
  rw [fromHex_ok_iff, asBytes_toHex]
  exact fromHexPairs_hexBytes bytes

/-- The number of two digits is written as these digits, in lower case. -/
private theorem hexByte_of_digits {a b : UInt8} {n : ℕ} (ha : IsHexDigit a)
    (h : fromStrRadix 255 16 [a, b] = .ok n) :
    (hexByte (UInt8.ofNat n)).map ascii = [toAsciiLower a, toAsciiLower b] := by
  rcases fromStrRadix_pair.mp h with ⟨x, y, hx, hy, rfl⟩ | ⟨rfl, -⟩
  · have hxlt := toDigit_lt hx
    have hylt := toDigit_lt hy
    have hn : (UInt8.ofNat (16 * x + y)).toNat = 16 * x + y := by
      rw [UInt8.toNat_ofNat', Nat.mod_eq_of_lt (by omega)]
    rw [hexByte, hn, show (16 * x + y) / 16 = x by omega, show (16 * x + y) % 16 = y by omega,
      map_cons, map_singleton, ascii_digitChar hx, ascii_digitChar hy]
  · exact absurd ha not_isHexDigit_plus

/-- What is read from digits alone is written as these digits, in lower case. -/
private theorem hexBytes_of_fromHexPairs : ∀ {bs v : List UInt8},
    fromHexPairs bs = some (.ok v) → (∀ b ∈ bs, IsHexDigit b) →
      (v.flatMap fun b => (hexByte b).map ascii) = bs.map toAsciiLower
  | [], v, h, _ => by
    obtain rfl : [] = v := Except.ok.inj (Option.some.inj h)
    rfl
  | [_], v, h, _ => by contradiction
  | a :: b :: rest, v, h, hall => by
    rw [fromHexPairs] at h
    cases hn : fromStrRadix 255 16 [a, b] with
    | error e =>
      rw [hn] at h
      have := Option.some.inj h
      contradiction
    | ok n =>
      rw [hn] at h
      obtain ⟨r, hr, hv⟩ := Option.map_eq_some_iff.mp h
      cases r with
      | error e => contradiction
      | ok w =>
        obtain rfl : UInt8.ofNat n :: w = v := Except.ok.inj hv
        have hrest := hexBytes_of_fromHexPairs hr fun c hc => hall c (by simp [hc])
        rw [flatMap_cons, hexByte_of_digits (hall a (by simp)) hn, hrest]
        rfl

/-- **What the codec reads.** Writing and reading gives the bytes back, and no text makes reading
panic. A text is read exactly if it consists of an even number of hexadecimal digits, and the
result is written as the text in lower case, unless the text has a plus sign in front of a digit
in some window and every window is a number. -/
theorem fromHex_exact_iff (bytes : List UInt8) (s : String) :
    fromHex (toHex bytes) = some (.ok bytes) ∧ (fromHex s).isSome ∧
      ((((∃ v, fromHex s = some (.ok v)) ↔
            (asBytes s).length % 2 = 0 ∧ ∀ b ∈ asBytes s, IsHexDigit b) ∧
          ∀ v, fromHex s = some (.ok v) → (∀ b ∈ asBytes s, IsHexDigit b) →
            asBytes (toHex v) = (asBytes s).map toAsciiLower) ↔
        ¬ (Pairs SignedDigits (asBytes s) ∧ ascii '+' ∈ asBytes s)) := by
  have hlower : ∀ v, fromHex s = some (.ok v) → (∀ b ∈ asBytes s, IsHexDigit b) →
      asBytes (toHex v) = (asBytes s).map toAsciiLower := by
    intro v hv hall
    rw [asBytes_toHex]
    exact hexBytes_of_fromHexPairs (fromHex_ok_iff.mp hv) hall
  refine ⟨fromHex_toHex bytes, fromHex_isSome s, ?_⟩
  rw [and_iff_left hlower]
  simp only [fromHex_ok_iff, exists_fromHexPairs_iff]
  constructor
  · rintro h ⟨hpairs, hplus⟩
    exact not_isHexDigit_plus ((h.mp hpairs).2 _ hplus)
  · intro hplus
    constructor
    · intro hpairs
      refine ⟨hpairs.length, fun b hb => ?_⟩
      -- a byte that is read and is no digit is a plus sign
      have hmem := hpairs.forall_mem (Q := fun b => IsHexDigit b ∨ b = ascii '+')
        fun a b h => ⟨h.1, .inl h.2⟩
      rcases hmem b hb with hdigit | rfl
      · exact hdigit
      · exact absurd ⟨hpairs, hb⟩ hplus
    · rintro ⟨hlen, hall⟩
      exact Pairs.of_forall (fun a b ha hb => ⟨.inl ha, hb⟩) hlen hall

/-- `+5` is read as the byte `5`. -/
theorem fromHex_plus_five : fromHex "+5" = some (.ok [5]) ∧ ¬ ∀ b ∈ asBytes "+5", IsHexDigit b := by
  decide

end Binary

end Mm1
