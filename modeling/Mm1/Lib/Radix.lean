import Mathlib.Data.Nat.Digits.Lemmas
import Mathlib.Tactic.Ring

/-!
# Numbers as text

Strings are read by their UTF-8 bytes. A byte stands for a digit in a radix up to `36`, and a
number is parsed from its digits, with the rules that unsigned integers have in Rust: a leading
`+` is accepted, an empty text is not, and a number above the bound is an error.

* `asBytes_ofList`: the bytes of a text of ASCII characters are these characters;
* `toDigit_digitChar`: a digit is read back from its character;
* `isHexDigit_iff`: the characters of the digits in radix `16`;
* `fromStrRadix_pair`: what is accepted in radix `16` among texts of two bytes.
-/

namespace Radix

open List

/-! ### Bytes of a text -/

/-- The bytes of a string. -/
def asBytes (s : String) : List UInt8 := s.toByteArray.data.toList

/-- The byte of an ASCII character. -/
def ascii (c : Char) : UInt8 := UInt8.ofNat c.toNat

/-- The bytes of ASCII text. -/
theorem asBytes_ofList {l : List Char} (h : ∀ c ∈ l, c.toNat < 128) :
    asBytes (String.ofList l) = l.map ascii := by
  rw [asBytes, String.toByteArray_ofList, List.utf8Encode, data_toByteArray]
  induction l with
  | nil => rfl
  | cons c l ih =>
    have hc : c.toNat < 128 := h c mem_cons_self
    have hchar : String.utf8EncodeChar c = [ascii c] := by
      rw [String.utf8EncodeChar]
      exact if_pos (Nat.le_of_lt_succ hc)
    have htail := ih fun c' hc' => h c' (mem_cons_of_mem c hc')
    rw [toList_toArray] at htail ⊢
    rw [flatMap_cons, hchar, map_cons, singleton_append, htail]

theorem asBytes_append (s t : String) : asBytes (s ++ t) = asBytes s ++ asBytes t := by
  rw [asBytes, String.toByteArray_append, ByteArray.data_append, Array.toList_append]
  rfl

/-- The text before and after the first separator. -/
def splitOnce (sep : UInt8) : List UInt8 → Option (List UInt8 × List UInt8)
  | [] => none
  | b :: rest =>
    if b = sep then some ([], rest)
    else (splitOnce sep rest).map fun p => (b :: p.1, p.2)

theorem splitOnce_append {sep : UInt8} {l r : List UInt8} (h : sep ∉ l) :
    splitOnce sep (l ++ sep :: r) = some (l, r) := by
  induction l with
  | nil => exact if_pos rfl
  | cons b l ih =>
    rw [mem_cons, not_or] at h
    rw [cons_append, splitOnce, if_neg (Ne.symm h.1), ih h.2, Option.map_some]

/-! ### Digits -/

/-- The value of a digit, in a radix up to `36`. -/
def toDigit (radix : ℕ) (b : UInt8) : Option ℕ :=
  let n := b.toNat
  let d :=
    if '0'.toNat ≤ n ∧ n ≤ '9'.toNat then n - '0'.toNat
    else if 'a'.toNat ≤ n ∧ n ≤ 'z'.toNat then n - 'a'.toNat + 10
    else if 'A'.toNat ≤ n ∧ n ≤ 'Z'.toNat then n - 'A'.toNat + 10
    else 36
  if d < radix then some d else none

/-- The character of a digit; letters are lower case. -/
def digitChar (d : ℕ) : Char :=
  if d < 10 then Char.ofNat ('0'.toNat + d) else Char.ofNat ('a'.toNat + (d - 10))

/-- The character of a digit of the radix. -/
def fromDigit (radix d : ℕ) : Option Char :=
  if d < radix then some (digitChar d) else none

/-- `0` to `9`, `a` to `f` or `A` to `F`. -/
def IsHexDigit (b : UInt8) : Prop :=
  '0'.toNat ≤ b.toNat ∧ b.toNat ≤ '9'.toNat ∨ 'a'.toNat ≤ b.toNat ∧ b.toNat ≤ 'f'.toNat ∨
    'A'.toNat ≤ b.toNat ∧ b.toNat ≤ 'F'.toNat

instance (b : UInt8) : Decidable (IsHexDigit b) := inferInstanceAs (Decidable (_ ∨ _ ∨ _))

/-- The lower-case form of an ASCII letter; other bytes are their own. -/
def toAsciiLower (b : UInt8) : UInt8 :=
  if 'A'.toNat ≤ b.toNat ∧ b.toNat ≤ 'Z'.toNat then b + 32 else b

variable {b : UInt8} {d : ℕ}

theorem toDigit_lt {radix d : ℕ} (h : toDigit radix b = some d) : d < radix := by
  obtain ⟨hlt, heq⟩ := Option.ite_none_right_eq_some.mp h
  rwa [Option.some.inj heq] at hlt

/-- The value of a digit, by the range of its character. -/
theorem toDigit_sixteen : toDigit 16 b = some d ↔
    48 ≤ b.toNat ∧ b.toNat ≤ 57 ∧ d = b.toNat - 48 ∨
      97 ≤ b.toNat ∧ b.toNat ≤ 102 ∧ d = b.toNat - 87 ∨
      65 ≤ b.toNat ∧ b.toNat ≤ 70 ∧ d = b.toNat - 55 := by
  simp only [toDigit, Option.ite_none_right_eq_some, Option.some.injEq, show '0'.toNat = 48 by rfl,
    show '9'.toNat = 57 by rfl, show 'a'.toNat = 97 by rfl, show 'z'.toNat = 122 by rfl,
    show 'A'.toNat = 65 by rfl, show 'Z'.toNat = 90 by rfl]
  split_ifs <;> omega

theorem isHexDigit_iff : IsHexDigit b ↔ ∃ d, toDigit 16 b = some d := by
  simp only [IsHexDigit, toDigit_sixteen, show '0'.toNat = 48 by rfl, show '9'.toNat = 57 by rfl,
    show 'a'.toNat = 97 by rfl, show 'f'.toNat = 102 by rfl, show 'A'.toNat = 65 by rfl,
    show 'F'.toNat = 70 by rfl]
  constructor
  · rintro (⟨h, h'⟩ | ⟨h, h'⟩ | ⟨h, h'⟩)
    · exact ⟨_, .inl ⟨h, h', rfl⟩⟩
    · exact ⟨_, .inr (.inl ⟨h, h', rfl⟩)⟩
    · exact ⟨_, .inr (.inr ⟨h, h', rfl⟩)⟩
  · rintro ⟨d, h⟩
    omega

theorem fromDigit_of_lt {radix d : ℕ} (h : d < radix) : fromDigit radix d = some (digitChar d) :=
  if_pos h

theorem mapM_fromDigit {radix : ℕ} {ds : List ℕ} (h : ∀ d ∈ ds, d < radix) :
    ds.mapM (fromDigit radix) = some (ds.map digitChar) := by
  induction ds with
  | nil => rfl
  | cons d ds ih =>
    rw [mapM_cons, fromDigit_of_lt (h d mem_cons_self),
      ih fun d' hd' => h d' (mem_cons_of_mem d hd')]
    rfl

theorem digitChar_ascii (h : d < 16) : (digitChar d).toNat < 128 := by
  revert d
  decide

theorem toDigit_digitChar (h : d < 16) : toDigit 16 (ascii (digitChar d)) = some d := by
  revert d
  decide

/-- The number of the character of a digit. -/
private theorem toNat_ascii_digitChar (h : d < 16) :
    (ascii (digitChar d)).toNat = if d < 10 then 48 + d else 87 + d := by
  revert d
  decide

/-- The character of the value of a digit is the digit in lower case. -/
theorem ascii_digitChar (h : toDigit 16 b = some d) : ascii (digitChar d) = toAsciiLower b := by
  refine UInt8.toNat_inj.mp ?_
  rw [toNat_ascii_digitChar (toDigit_lt h), toAsciiLower]
  rw [toDigit_sixteen] at h
  simp only [show 'A'.toNat = 65 by rfl, show 'Z'.toNat = 90 by rfl]
  have hlower : b.toNat ≤ 70 → (b + 32).toNat = b.toNat + 32 := by
    intro hle
    rw [UInt8.toNat_add]
    exact Nat.mod_eq_of_lt (by simp; omega)
  split_ifs <;> omega

/-! ### Numerals -/

/-- The number with the digits `ds` behind those of `n`, the leading one first. -/
def numeral (radix n : ℕ) (ds : List ℕ) : ℕ := ds.foldl (fun n d => radix * n + d) n

section Numeral

variable (radix n : ℕ)

@[simp] theorem numeral_nil : numeral radix n [] = n := rfl

@[simp] theorem numeral_cons (d : ℕ) (ds : List ℕ) :
    numeral radix n (d :: ds) = numeral radix (radix * n + d) ds := rfl

theorem numeral_append (ds ds' : List ℕ) :
    numeral radix n (ds ++ ds') = numeral radix (numeral radix n ds) ds' := foldl_append

theorem numeral_replicate_zero (k : ℕ) : numeral radix n (List.replicate k 0) = n * radix ^ k := by
  induction k generalizing n with
  | zero => rw [Nat.pow_zero, Nat.mul_one]; rfl
  | succ k ih =>
    rw [replicate_succ, numeral_cons, ih, Nat.add_zero, Nat.pow_succ]
    ring

theorem numeral_eq_ofDigits (ds : List ℕ) : numeral radix 0 ds = Nat.ofDigits radix ds.reverse := by
  rw [Nat.ofDigits_eq_foldr, foldr_reverse, numeral]
  congr
  funext n d
  exact Nat.add_comm _ _

end Numeral

/-! ### Unsigned integers -/

/-- Why a text is not a number. -/
inductive IntErrorKind where
  | empty
  | invalidDigit
  | posOverflow
  deriving DecidableEq, Repr

/-- The text of the error. -/
def IntErrorKind.display : IntErrorKind → String
  | .empty => "cannot parse integer from empty string"
  | .invalidDigit => "invalid digit found in string"
  | .posOverflow => "number too large to fit in target type"

/-- Read the digits of a number that must not exceed the bound. -/
def parseDigits (bound radix : ℕ) : ℕ → List UInt8 → Except IntErrorKind ℕ
  | acc, [] => .ok acc
  | acc, b :: rest =>
    match toDigit radix b with
    | none => .error .invalidDigit
    | some d =>
      if acc * radix + d ≤ bound then parseDigits bound radix (acc * radix + d) rest
      else .error .posOverflow

/-- `from_str_radix` of an unsigned type with the given largest value. -/
def fromStrRadix (bound radix : ℕ) : List UInt8 → Except IntErrorKind ℕ
  | [] => .error .empty
  | [b] =>
    if b = ascii '+' ∨ b = ascii '-' then .error .invalidDigit
    else parseDigits bound radix 0 [b]
  | b :: rest =>
    if b = ascii '+' then parseDigits bound radix 0 rest
    else parseDigits bound radix 0 (b :: rest)

theorem not_isHexDigit_plus : ¬ IsHexDigit (ascii '+') := by decide

/-- **Two bytes in radix `16`**: the second is a digit, and the first is a digit or a plus sign. -/
theorem fromStrRadix_pair {a b : UInt8} {n : ℕ} :
    fromStrRadix 255 16 [a, b] = .ok n ↔
      (∃ x y, toDigit 16 a = some x ∧ toDigit 16 b = some y ∧ n = 16 * x + y) ∨
        a = ascii '+' ∧ toDigit 16 b = some n := by
  change (if a = ascii '+' then parseDigits 255 16 0 [b] else parseDigits 255 16 0 [a, b]) = _ ↔ _
  by_cases hplus : a = ascii '+'
  · rw [if_pos hplus]
    subst hplus
    have hnot : ∀ x, toDigit 16 (ascii '+') ≠ some x := fun x hx =>
      not_isHexDigit_plus (isHexDigit_iff.mpr ⟨x, hx⟩)
    cases hb : toDigit 16 b with
    | none => simp [parseDigits, hb]
    | some y =>
      have hy := toDigit_lt hb
      simp [parseDigits, hb, hnot, show y ≤ 255 by omega]
  · rw [if_neg hplus]
    cases ha : toDigit 16 a with
    | none => simp [parseDigits, ha, hplus]
    | some x =>
      have hx := toDigit_lt ha
      cases hb : toDigit 16 b with
      | none => simp [parseDigits, ha, hb, show x ≤ 255 by omega]
      | some y =>
        have hy := toDigit_lt hb
        simp [parseDigits, ha, hb, hplus, show x ≤ 255 by omega, show x * 16 + y ≤ 255 by omega,
          Nat.mul_comm, eq_comm]

end Radix
