import Mm1.Address.Basic
import Mm1.Lib.Radix

/-!
# Addresses as text

An address is written as its hexadecimal digits between angle brackets; the first of the longest
runs of zeros, if it has at least two, is written as a colon (`address_str`). A subnet is written
as an address, a slash, and the length of the mask in decimal.

Panics are `none`: a shift by the width of the word or more, an addition that overflows, a digit
that is out of range, a window of the text that ends before it begins.

* `parseLoop_eq`: the loop of the parser reads the digits that `expand` finds in the body;
* `numeral_digits`: the digits of a word are a numeral of it;
* `toChars_spec`: the body that is printed stands for the digits of the word;
* `address_text_forms`: what is printed is parsed back, and which texts are parsed as what.
-/

namespace Mm1

open Radix Option List

variable {body : List UInt8} {ds : List ℕ} {gapLen : Option ℕ} {n d : ℕ} {u : U64}

namespace AddressStr

/-! ### The printer and the parser -/

/-- The loop of `digits`, `n` digits from the highest on. -/
def digitsLoop : ℕ → U64 → List ℕ
  | 0, _ => []
  | n + 1, u => ((u &&& 0xF000000000000000#64) >>> 60).toNat :: digitsLoop n (u <<< 4)

/-- `digits`. -/
def digits (u : U64) : List ℕ := digitsLoop 16 u

/-- `<<=`, which panics when the shift is not less than the width. -/
def shl (u : U64) (n : ℕ) : Option U64 := if n < 64 then some (u <<< n) else none

/-- `+=`, which panics on overflow. -/
def add (u : U64) (d : ℕ) : Option U64 :=
  if u.toNat + d ≤ (BitVec.allOnes 64).toNat then some (u + BitVec.ofNat 64 d) else none

/-- The loop of `from_str`. The outer `none` is a panic, the inner one is the answer. -/
def parseLoop : List UInt8 → Option ℕ → U64 → Option (Option U64)
  | [], _, out => some (some out)
  | b :: rest, gapLen, out => do
    let out ← shl out 4
    if b = ascii ':' then
      match gapLen with
      | none => some none
      | some gapLen =>
        let out ← shl out (4 * gapLen)
        parseLoop rest none out
    else
      match toDigit 16 b with
      | none => some none
      | some d =>
        let out ← add out d
        parseLoop rest gapLen out

/-- `from_str`, on the bytes of the text. -/
def fromStr (bytes : List UInt8) : Option (Option U64) :=
  if (bytes.head?, bytes.getLast?) ≠ (some (ascii '<'), some (ascii '>')) then some none
  else if bytes.length < 2 then none
  else
    let body := (bytes.take (bytes.length - 1)).drop 1
    if 16 < body.length then some none
    else parseLoop body (some (16 - body.length)) 0#64

/-- A run of zeros. -/
structure Span where
  start : ℕ
  len : ℕ
  deriving DecidableEq

/-- One digit in the search for the longest run: `this` is the run that ends here. -/
def spanStep (s : Span × Span) (d : ℕ × ℕ) : Span × Span :=
  let (this, best) := s
  let (d, idx) := d
  if d = 0 then ({ this with len := this.len + 1 }, best)
  else (⟨idx + 1, 0⟩, if this.len > best.len then this else best)

/-- The first of the longest runs of zeros. -/
def bestSpan (digits : List ℕ) : Span :=
  let (this, best) := digits.zipIdx.foldl spanStep (⟨0, 0⟩, ⟨0, 0⟩)
  if this.len > best.len then this else best

/-- `to_chars`. -/
def toChars (u : U64) : Option (List Char) := do
  let digits := digits u
  let best := bestSpan digits
  let left ← (digits.take best.start).mapM (fromDigit 16)
  let (center, resumeFrom) :=
    if best.len > 1 then ([':'], best.start + best.len) else ([], best.start)
  let right ← (digits.drop resumeFrom).mapM (fromDigit 16)
  return '<' :: left ++ center ++ right ++ ['>']

/-! ### The parser -/

/-- The digits of a body, its colon as `gapLen + 1` zeros; `none` for a second colon and for a
byte that is not a digit. -/
def expand : Option ℕ → List UInt8 → Option (List ℕ)
  | _, [] => some []
  | gapLen, b :: rest =>
    if b = ascii ':' then
      match gapLen with
      | none => none
      | some gapLen => (expand none rest).map (List.replicate (gapLen + 1) 0 ++ ·)
    else
      match toDigit 16 b with
      | none => none
      | some d => (expand gapLen rest).map (d :: ·)

private theorem shl_ofNat {n k : ℕ} (hk : 4 * k < 64) :
    shl (BitVec.ofNat 64 n) (4 * k) = some (BitVec.ofNat 64 (n * 16 ^ k)) := by
  rw [shl, if_pos hk]
  refine congrArg some (BitVec.eq_of_toNat_eq ?_)
  rw [BitVec.toNat_shiftLeft, BitVec.toNat_ofNat, BitVec.toNat_ofNat, Nat.shiftLeft_eq, Nat.pow_mul,
    Nat.mod_mul_mod]

/-- Behind a shift by four bits there is room for a digit. -/
private theorem add_ofNat (hd : d < 16) :
    add (BitVec.ofNat 64 (n * 16)) d = some (BitVec.ofNat 64 (16 * n + d)) := by
  have hroom : n * 16 % 2 ^ 64 + d ≤ (BitVec.allOnes 64).toNat := by
    rw [BitVec.toNat_allOnes]
    omega
  rw [add, BitVec.toNat_ofNat, if_pos hroom, ← BitVec.ofNat_add, Nat.mul_comm]

/-- **The loop of the parser** reads the digits of the body, without a panic. -/
theorem parseLoop_eq (n : ℕ) (hgap : ∀ g ∈ gapLen, ascii ':' ∈ body → g < 16) :
    parseLoop body gapLen (BitVec.ofNat 64 n) =
      some ((expand gapLen body).map fun ds => BitVec.ofNat 64 (numeral 16 n ds)) := by
  induction body generalizing gapLen n with
  | nil => rfl
  | cons b rest ih =>
    have hshl := shl_ofNat (n := n) (k := 1) (by omega)
    rw [Nat.mul_one, Nat.pow_one] at hshl
    simp only [parseLoop, expand, hshl, Option.bind_eq_bind, Option.bind_some]
    by_cases hb : b = ascii ':'
    · rw [if_pos hb, if_pos hb]
      cases gapLen with
      | none => rfl
      | some g =>
        have hg : g < 16 := hgap g rfl (by simp [hb])
        simp only [shl_ofNat (n := n * 16) (k := g) (by omega), Option.bind_some]
        rw [ih _ (by simp), Option.map_map]
        refine congrArg some (congrArg (Option.map · _) ?_)
        funext ds
        simp only [Function.comp_apply, numeral_append, numeral_replicate_zero, Nat.pow_succ]
        rw [Nat.mul_assoc n 16, Nat.mul_comm 16]
    · rw [if_neg hb, if_neg hb]
      cases hd : toDigit 16 b with
      | none => rfl
      | some d =>
        simp only [add_ofNat (toDigit_lt hd), Option.bind_some]
        rw [ih _ fun g hg hmem => hgap g hg (mem_cons_of_mem b hmem), Option.map_map]
        rfl

/-- The digits that a byte of a body stands for, when its colon stands for `zeros` zeros. -/
def digitsOf (zeros : ℕ) (b : UInt8) : List ℕ :=
  if b = ascii ':' then List.replicate zeros 0 else [(toDigit 16 b).getD 0]

private theorem not_isHexDigit_colon : ¬ IsHexDigit (ascii ':') := by decide

/-- A body is expanded if its bytes are digits, apart from as many colons as are allowed. -/
private theorem expand_eq_some_iff {g : ℕ} (hg : ∀ g' ∈ gapLen, g' = g) :
    expand gapLen body = some ds ↔
      (∀ b ∈ body, IsHexDigit b ∨ b = ascii ':') ∧
        body.count (ascii ':') ≤ gapLen.toList.length ∧ ds = body.flatMap (digitsOf (g + 1)) := by
  induction body generalizing gapLen ds with
  | nil => simp [expand, eq_comm]
  | cons b rest ih =>
    simp only [expand, flatMap_cons, digitsOf, forall_mem_cons]
    by_cases hb : b = ascii ':'
    · rw [if_pos hb, if_pos hb, hb, count_cons_self]
      cases gapLen with
      | none => simp
      | some g' =>
        obtain rfl := hg g' rfl
        have hrest : ∀ ds', expand none rest = some ds' ↔
            (∀ b ∈ rest, IsHexDigit b ∨ b = ascii ':') ∧ rest.count (ascii ':') ≤ 0 ∧
              ds' = rest.flatMap (digitsOf (g' + 1)) := fun ds' => ih (by simp)
        simp only [map_eq_some_iff, hrest, toList_some, length_singleton]
        constructor
        · rintro ⟨ds', ⟨hall, hcount, rfl⟩, rfl⟩
          exact ⟨⟨.inr trivial, hall⟩, by omega, rfl⟩
        · rintro ⟨⟨-, hall⟩, hcount, rfl⟩
          exact ⟨_, ⟨hall, by omega, rfl⟩, rfl⟩
    · rw [if_neg hb, if_neg hb, count_cons_of_ne hb]
      cases hd : toDigit 16 b with
      | none =>
        refine iff_of_false (by simp) fun h => ?_
        rcases h.1.1 with hdigit | hcolon
        · obtain ⟨d, hd'⟩ := isHexDigit_iff.mp hdigit
          rw [hd] at hd'
          contradiction
        · exact hb hcolon
      | some d =>
        have hdigit : IsHexDigit b := isHexDigit_iff.mpr ⟨d, hd⟩
        simp only [map_eq_some_iff, ih hg, getD_some]
        constructor
        · rintro ⟨ds', ⟨hall, hcount, rfl⟩, rfl⟩
          exact ⟨⟨.inl hdigit, hall⟩, hcount, rfl⟩
        · rintro ⟨⟨-, hall⟩, hcount, rfl⟩
          exact ⟨_, ⟨hall, hcount, rfl⟩, rfl⟩

/-- What may stand between the brackets: at most sixteen bytes, digits apart from at most one
colon. -/
def IsBody (body : List UInt8) : Prop :=
  body.length ≤ 16 ∧ (∀ b ∈ body, IsHexDigit b ∨ b = ascii ':') ∧ body.count (ascii ':') ≤ 1

/-- The digits of a body: its colon stands for the zeros that are missing, and without one the
zeros are on the left. -/
def sixteenDigits (body : List UInt8) : List ℕ :=
  let ds := body.flatMap (digitsOf (16 - (body.length - 1)))
  List.replicate (16 - ds.length) 0 ++ ds

private theorem length_digitsOf (zeros : ℕ) (body : List UInt8) :
    (body.flatMap (digitsOf zeros)).length + body.count (ascii ':') =
      body.length + body.count (ascii ':') * zeros := by
  induction body with
  | nil => simp
  | cons b rest ih =>
    rw [flatMap_cons, length_append, length_cons, digitsOf]
    by_cases hb : b = ascii ':'
    · rw [if_pos hb, hb, count_cons_self, length_replicate, Nat.add_mul]
      omega
    · rw [if_neg hb, count_cons_of_ne hb, length_singleton]
      omega

/-- An address has sixteen digits. -/
private theorem IsBody.length_sixteenDigits (h : IsBody body) :
    (sixteenDigits body).length = 16 := by
  obtain ⟨hlen, -, hcount⟩ := h
  have hds := length_digitsOf (16 - (body.length - 1)) body
  have hpos := count_le_length (a := ascii ':') (l := body)
  rw [sixteenDigits, length_append, length_replicate]
  interval_cases body.count (ascii ':') <;> omega

private theorem sixteenDigits_lt (body : List UInt8) : ∀ d ∈ sixteenDigits body, d < 16 := by
  intro d hd
  rcases mem_append.mp hd with hd | hd
  · rw [(mem_replicate.mp hd).2]
    omega
  · obtain ⟨b, -, hd⟩ := mem_flatMap.mp hd
    rw [digitsOf] at hd
    split at hd
    · rw [(mem_replicate.mp hd).2]
      omega
    · rw [mem_singleton.mp hd]
      cases hb : toDigit 16 b with
      | none => simp
      | some d => exact toDigit_lt hb

/-- The number that a body stands for. -/
def value (body : List UInt8) : ℕ := Nat.ofDigits 16 (sixteenDigits body).reverse

private theorem value_eq (body : List UInt8) :
    value body = numeral 16 0 (body.flatMap (digitsOf (16 - (body.length - 1)))) := by
  rw [value, ← numeral_eq_ofDigits, sixteenDigits, numeral_append, numeral_replicate_zero,
    Nat.zero_mul]

private theorem IsBody.value_lt (h : IsBody body) : value body < 2 ^ 64 := by
  have hlt := Nat.ofDigits_lt_base_pow_length (b := 16) (l := (sixteenDigits body).reverse)
    (by omega) fun d hd => sixteenDigits_lt body d (mem_reverse.mp hd)
  rw [length_reverse, h.length_sixteenDigits] at hlt
  exact hlt

/-- The loop reads a body as its value. -/
private theorem parseLoop_body (hlen : body.length ≤ 16) :
    ∃ r, parseLoop body (some (16 - body.length)) 0#64 = some r ∧
      ∀ u, r = some u ↔ IsBody body ∧ u.toNat = value body := by
  have hgap : ∀ g ∈ some (16 - body.length), ascii ':' ∈ body → g < 16 := by
    intro g hg hmem
    have := length_pos_of_mem hmem
    obtain rfl := some.inj hg
    omega
  have hloop := parseLoop_eq 0 hgap
  refine ⟨_, hloop, fun u => ?_⟩
  have hexpand : ∀ ds, expand (some (16 - body.length)) body = some ds ↔
      (∀ b ∈ body, IsHexDigit b ∨ b = ascii ':') ∧ body.count (ascii ':') ≤ 1 ∧
        ds = body.flatMap (digitsOf (16 - body.length + 1)) :=
    fun ds => expand_eq_some_iff (by simp)
  have hsame : body.flatMap (digitsOf (16 - body.length + 1)) =
      body.flatMap (digitsOf (16 - (body.length - 1))) := by
    cases body with
    | nil => rfl
    | cons b rest =>
      rw [length_cons] at hlen ⊢
      rw [show 16 - (rest.length + 1) + 1 = 16 - (rest.length + 1 - 1) by omega]
  simp only [map_eq_some_iff, hexpand, hsame]
  constructor
  · rintro ⟨ds, ⟨hall, hcount, rfl⟩, rfl⟩
    have hbody : IsBody body := ⟨hlen, hall, hcount⟩
    rw [← value_eq, BitVec.toNat_ofNat, Nat.mod_eq_of_lt hbody.value_lt]
    exact ⟨hbody, rfl⟩
  · rintro ⟨hbody, hu⟩
    refine ⟨_, ⟨hbody.2.1, hbody.2.2, rfl⟩, BitVec.eq_of_toNat_eq ?_⟩
    rw [← value_eq, BitVec.toNat_ofNat, Nat.mod_eq_of_lt hbody.value_lt, hu]

/-- A text with both brackets. -/
private theorem bracketed_iff {bytes : List UInt8} :
    (bytes.head?, bytes.getLast?) = (some (ascii '<'), some (ascii '>')) ↔
      ∃ body, bytes = ascii '<' :: body ++ [ascii '>'] := by
  constructor
  · intro h
    obtain ⟨hhead, hlast⟩ := Prod.mk.inj h
    obtain ⟨rest, rfl⟩ : ∃ rest, bytes = ascii '<' :: rest := by
      cases bytes with
      | nil => contradiction
      | cons b rest => exact ⟨rest, by rw [some.inj hhead]⟩
    rcases eq_nil_or_concat' rest with rfl | ⟨body, b, rfl⟩
    · contradiction
    · rw [← cons_append, List.getLast?_concat] at hlast
      exact ⟨body, by rw [some.inj hlast]; rfl⟩
  · rintro ⟨body, rfl⟩
    rw [List.getLast?_concat]
    rfl

/-- **What the parser accepts**, and as what; it never panics. -/
theorem fromStr_spec (bytes : List UInt8) :
    ∃ r, fromStr bytes = some r ∧
      ∀ u, r = some u ↔ ∃ body, bytes = ascii '<' :: body ++ [ascii '>'] ∧ IsBody body ∧
        u.toNat = value body := by
  by_cases hbrackets : ∃ body, bytes = ascii '<' :: body ++ [ascii '>']
  · obtain ⟨body, rfl⟩ := id hbrackets
    have htake : ((ascii '<' :: body ++ [ascii '>']).take
        ((ascii '<' :: body ++ [ascii '>']).length - 1)).drop 1 = body := by
      simp
    have hunique : ∀ {body'}, ascii '<' :: body ++ [ascii '>'] =
        ascii '<' :: body' ++ [ascii '>'] → body = body' := by
      intro body' heq
      simpa using heq
    rw [fromStr, if_neg (Decidable.not_not.mpr (bracketed_iff.mpr hbrackets)), if_neg (by simp)]
    simp only [htake]
    by_cases hlen : 16 < body.length
    · rw [if_pos hlen]
      refine ⟨none, rfl, fun u => iff_of_false (by simp) ?_⟩
      rintro ⟨body', heq, hbody, -⟩
      obtain rfl := hunique heq
      exact absurd hbody.1 (by omega)
    · rw [if_neg hlen]
      obtain ⟨r, hr, hu⟩ := parseLoop_body (Nat.le_of_not_lt hlen)
      refine ⟨r, hr, fun u => ?_⟩
      rw [hu]
      constructor
      · exact fun h => ⟨body, rfl, h⟩
      · rintro ⟨body', heq, h⟩
        obtain rfl := hunique heq
        exact h
  · rw [fromStr, if_pos (mt bracketed_iff.mp hbrackets)]
    refine ⟨none, rfl, fun u => iff_of_false (by simp) ?_⟩
    rintro ⟨body, heq, -⟩
    exact hbrackets ⟨body, heq⟩

/-! ### The printer -/

/-- The first digit of a word. -/
private theorem high_digit (u : U64) :
    ((u &&& 0xF000000000000000#64) >>> 60).toNat = u.toNat / 2 ^ 60 := by
  have hmask : (u &&& 0xF000000000000000#64) >>> 60 = u >>> 60 :=
    PrefixBlock.samePrefix_and_prefixMask u 60
  rw [hmask, BitVec.toNat_ushiftRight, Nat.shiftRight_eq_div_pow]

private theorem digitsLoop_lt (h : d ∈ digitsLoop n u) : d < 16 := by
  induction n generalizing u with
  | zero => simp [digitsLoop] at h
  | succ n ih =>
    rcases mem_cons.mp h with rfl | h
    · have := u.isLt
      rw [high_digit]
      omega
    · exact ih h

private theorem length_digitsLoop (n : ℕ) (u : U64) : (digitsLoop n u).length = n := by
  induction n generalizing u with
  | zero => rfl
  | succ n ih => rw [digitsLoop, length_cons, ih]

/-- The first `n` digits are the high bits. -/
private theorem numeral_digitsLoop {n : ℕ} (hn : n ≤ 16) (acc : ℕ) (u : U64) :
    numeral 16 acc (digitsLoop n u) = acc * 16 ^ n + u.toNat / 2 ^ (64 - 4 * n) := by
  induction n generalizing acc u with
  | zero =>
    have := u.isLt
    rw [digitsLoop, numeral_nil, Nat.pow_zero, Nat.mul_one, Nat.div_eq_of_lt (by simpa using this)]
    rfl
  | succ n ih =>
    -- the word is its first digit and the rest
    have hsplit := Nat.div_add_mod u.toNat (2 ^ 60)
    set d := u.toNat / 2 ^ 60 with hd
    set r := u.toNat % 2 ^ 60 with hr
    have hrlt : r < 2 ^ 60 := Nat.mod_lt _ (by positivity)
    have hshift : (u <<< 4).toNat = 2 ^ 4 * r := by
      rw [BitVec.toNat_shiftLeft, Nat.shiftLeft_eq, ← hsplit]
      omega
    have hpow : 2 ^ 60 = 2 ^ (60 - 4 * n) * 16 ^ n := by
      rw [show (16 : ℕ) = 2 ^ 4 by rfl, ← Nat.pow_mul, ← Nat.pow_add]
      congr 1
      omega
    rw [digitsLoop, numeral_cons, high_digit, ← hd, ih (by omega), hshift,
      show 64 - 4 * n = 4 + (60 - 4 * n) by omega, Nat.pow_add,
      Nat.mul_div_mul_left _ _ (by positivity), show 64 - 4 * (n + 1) = 60 - 4 * n by omega,
      ← hsplit, hpow, Nat.mul_assoc, Nat.mul_add_div (by positivity)]
    ring

/-- The digits of a word are a numeral of it. -/
private theorem numeral_digits (u : U64) : numeral 16 0 (digits u) = u.toNat := by
  rw [digits, numeral_digitsLoop le_rfl]
  simp

/-- The digits in the span are zeros. -/
def ZeroRun (ds : List ℕ) (s : Span) : Prop :=
  ∃ left right, ds = left ++ List.replicate s.len 0 ++ right ∧ left.length = s.start

/-- The search keeps two runs of zeros, the first of which ends at the last digit. -/
private theorem zeroRun_foldl (ds : List ℕ) :
    ∃ this best, ds.zipIdx.foldl spanStep (⟨0, 0⟩, ⟨0, 0⟩) = (this, best) ∧
      (∃ left, ds = left ++ List.replicate this.len 0 ∧ left.length = this.start) ∧
      ZeroRun ds best := by
  induction ds using List.reverseRecOn with
  | nil => exact ⟨_, _, rfl, ⟨[], rfl, rfl⟩, [], [], rfl, rfl⟩
  | append_singleton ds d ih =>
    obtain ⟨this, best, hfold, ⟨left, hds, hleft⟩, l, r, hbest, hl⟩ := ih
    have hbest' : ZeroRun (ds ++ [d]) best := ⟨l, r ++ [d], by rw [hbest]; simp, hl⟩
    rw [zipIdx_append, foldl_append, hfold, Nat.zero_add]
    by_cases hd : d = 0
    · refine ⟨_, _, if_pos hd, ⟨left, ?_, hleft⟩, hbest'⟩
      rw [replicate_succ', ← append_assoc, ← hds, hd]
    · refine ⟨_, _, if_neg hd, ⟨ds ++ [d], by simp, by simp⟩, ?_⟩
      split
      · exact ⟨left, [d], by rw [← hds], hleft⟩
      · exact hbest'

/-- The best span is a run of zeros. -/
private theorem zeroRun_bestSpan (ds : List ℕ) : ZeroRun ds (bestSpan ds) := by
  obtain ⟨this, best, hfold, ⟨left, hds, hleft⟩, hbest⟩ := zeroRun_foldl ds
  rw [bestSpan, hfold]
  change ZeroRun ds (if this.len > best.len then this else best)
  split
  · exact ⟨left, [], by rw [← hds, append_nil], hleft⟩
  · exact hbest

private theorem length_digits (u : U64) : (digits u).length = 16 := length_digitsLoop 16 u

private theorem digits_lt {d : ℕ} (h : d ∈ digits u) : d < 16 := digitsLoop_lt h

/-- The bytes of digits. -/
def digitBytes (ds : List ℕ) : List UInt8 := ds.map fun d => ascii (digitChar d)

section Digits

variable (h : ∀ d ∈ ds, d < 16)

include h

private theorem colon_notMem_digitBytes : ascii ':' ∉ digitBytes ds := by
  intro hmem
  obtain ⟨d, hd, heq⟩ := mem_map.mp hmem
  refine not_isHexDigit_colon (isHexDigit_iff.mpr ⟨d, ?_⟩)
  rw [← heq]
  exact toDigit_digitChar (h d hd)

private theorem isHexDigit_of_mem {b : UInt8} (hb : b ∈ digitBytes ds) : IsHexDigit b := by
  obtain ⟨d, hd, rfl⟩ := mem_map.mp hb
  exact isHexDigit_iff.mpr ⟨d, toDigit_digitChar (h d hd)⟩

private theorem ascii_of_mem : ∀ c ∈ ds.map digitChar, c.toNat < 128 := by
  intro c hc
  obtain ⟨d, hd, rfl⟩ := mem_map.mp hc
  exact digitChar_ascii (h d hd)

/-- Digits are read back. -/
private theorem flatMap_digitBytes {zeros : ℕ} : (digitBytes ds).flatMap (digitsOf zeros) = ds := by
  have hcolon := colon_notMem_digitBytes h
  induction ds with
  | nil => rfl
  | cons d ds ih =>
    rw [digitBytes, map_cons, mem_cons, not_or] at hcolon
    rw [digitBytes, map_cons, flatMap_cons, digitsOf, if_neg (Ne.symm hcolon.1),
      toDigit_digitChar (h d mem_cons_self), getD_some]
    exact congrArg (d :: ·) (ih (fun d' hd' => h d' (mem_cons_of_mem d hd')) hcolon.2)

/-- A body without a colon. -/
private theorem body_digits (hlen : ds.length = 16) :
    IsBody (digitBytes ds) ∧ sixteenDigits (digitBytes ds) = ds := by
  refine ⟨⟨?_, fun b hb => .inl (isHexDigit_of_mem h hb), ?_⟩, ?_⟩
  · rw [digitBytes, length_map, hlen]
  · rw [count_eq_zero_of_not_mem (colon_notMem_digitBytes h)]
    omega
  · simp only [sixteenDigits, flatMap_digitBytes h, hlen]
    rfl

end Digits

/-- A body whose colon stands for `n` zeros. -/
private theorem body_gap {left right : List ℕ} {n : ℕ} (hl : ∀ d ∈ left, d < 16)
    (hr : ∀ d ∈ right, d < 16) (hlen : left.length + n + right.length = 16) (hn : 0 < n) :
    IsBody (digitBytes left ++ ascii ':' :: digitBytes right) ∧
      sixteenDigits (digitBytes left ++ ascii ':' :: digitBytes right) =
        left ++ List.replicate n 0 ++ right := by
  have hbody : (digitBytes left ++ ascii ':' :: digitBytes right).length =
      left.length + right.length + 1 := by
    simp only [digitBytes, length_append, length_cons, length_map]
    omega
  refine ⟨⟨by omega, fun b hb => ?_, ?_⟩, ?_⟩
  · rcases mem_append.mp hb with hb | hb
    · exact .inl (isHexDigit_of_mem hl hb)
    · rcases mem_cons.mp hb with rfl | hb
      · exact .inr rfl
      · exact .inl (isHexDigit_of_mem hr hb)
  · rw [count_append, count_cons_self, count_eq_zero_of_not_mem (colon_notMem_digitBytes hl),
      count_eq_zero_of_not_mem (colon_notMem_digitBytes hr)]
  · have hzeros : 16 - (left.length + right.length + 1 - 1) = n := by omega
    have hall : (left ++ (List.replicate n 0 ++ right)).length = 16 := by
      simp only [length_append, length_replicate]
      omega
    simp only [sixteenDigits, hbody, hzeros, flatMap_append, flatMap_cons,
      flatMap_digitBytes hl, flatMap_digitBytes hr, digitsOf, if_true, hall, append_assoc]
    rfl

/-- **What is printed**: the brackets and a body of the digits of the word. -/
theorem toChars_spec (u : U64) :
    ∃ chars, toChars u = some chars ∧ (∀ c ∈ chars, c.toNat < 128) ∧
      ∃ body, chars.map ascii = ascii '<' :: body ++ [ascii '>'] ∧ IsBody body ∧
        sixteenDigits body = digits u := by
  obtain ⟨left, right, hds, hstart⟩ := zeroRun_bestSpan (digits u)
  have hlen := length_digits u
  have hlt : ∀ d ∈ digits u, d < 16 := fun d => digits_lt
  rw [toChars]
  generalize bestSpan (digits u) = best at hds hstart ⊢
  rw [hds] at hlen hlt
  simp only [forall_mem_append] at hlt
  obtain ⟨⟨hl, hz⟩, hr⟩ := hlt
  have htake : (digits u).take best.start = left := by
    rw [hds, append_assoc, ← hstart, take_left]
  rw [htake, mapM_fromDigit hl]
  by_cases hgap : best.len > 1
  · have hdrop : (digits u).drop (best.start + best.len) = right := by
      rw [hds, drop_left' (by simp [hstart])]
    simp only [hgap, if_true, hdrop, mapM_fromDigit hr, Option.bind_eq_bind, Option.bind_some,
      Option.pure_def]
    obtain ⟨hbody, hsixteen⟩ := body_gap hl hr (n := best.len)
      (by simpa only [length_append, length_replicate] using hlen) (by omega)
    refine ⟨_, rfl, ?_, _, ?_, hbody, by rw [hsixteen, hds]⟩
    · simp only [forall_mem_append, forall_mem_cons]
      exact ⟨⟨⟨⟨by decide, ascii_of_mem hl⟩, by simp⟩, ascii_of_mem hr⟩, by simp⟩
    · simp [digitBytes, Function.comp_def]
  · have hdrop : (digits u).drop best.start = List.replicate best.len 0 ++ right := by
      rw [hds, append_assoc, ← hstart, drop_left]
    have hright : ∀ d ∈ List.replicate best.len 0 ++ right, d < 16 := forall_mem_append.mpr ⟨hz, hr⟩
    simp only [hgap, if_false, hdrop, mapM_fromDigit hright, Option.bind_eq_bind,
      Option.bind_some, Option.pure_def]
    obtain ⟨hbody, hsixteen⟩ := body_digits (fun d => digits_lt (u := u)) (length_digits u)
    refine ⟨_, rfl, ?_, _, ?_, hbody, hsixteen⟩
    · simp only [forall_mem_append, forall_mem_cons]
      exact ⟨⟨⟨⟨by decide, ascii_of_mem hl⟩, by simp⟩, ascii_of_mem hright⟩, by simp⟩
    · rw [hds]
      simp [digitBytes, Function.comp_def]

end AddressStr

/-! ### Text forms -/

/-- The error of `FromStr` for `Address`. -/
structure AddressParseError where
  deriving DecidableEq

/-- The errors of `FromStr` for `NetMask`. -/
inductive MaskParseError where
  | invalidMask (mask : InvalidMask)
  | parseIntError (kind : IntErrorKind)
  deriving DecidableEq

/-- The errors of `FromStr` for `NetAddress`. -/
inductive NetAddressParseError where
  | noSlash
  | parseAddrError (error : AddressParseError)
  | parseMaskError (error : MaskParseError)
  deriving DecidableEq

namespace Address

/-- `Display`; `none` is a panic. -/
def display (a : Address) : Option String := (AddressStr.toChars a.intoU64).map String.ofList

/-- `FromStr` on the bytes of a text. The outer `none` is a panic. -/
def fromBytes (bytes : List UInt8) : Option (Except AddressParseError Address) :=
  (AddressStr.fromStr bytes).map fun
    | none => .error {}
    | some u => .ok ⟨u⟩

/-- `FromStr`. -/
def fromStr (s : String) : Option (Except AddressParseError Address) := fromBytes (asBytes s)

end Address

namespace NetMask

/-- `Display`: the length of the mask in decimal. -/
def display (m : NetMask) : String := String.ofList (Nat.toDigits 10 m.bitsFixed)

/-- `FromStr` on the bytes of a text. -/
def fromBytes (bytes : List UInt8) : Except MaskParseError NetMask :=
  match fromStrRadix 255 10 bytes with
  | .error kind => .error (.parseIntError kind)
  | .ok n => (tryFrom (UInt8.ofNat n)).mapError .invalidMask

end NetMask

namespace NetAddress

/-- `Display`. -/
def display (n : NetAddress) : Option String :=
  n.address.display.map fun address => address ++ "/" ++ n.mask.display

/-- `FromStr`. The outer `none` is a panic. -/
def fromStr (s : String) : Option (Except NetAddressParseError NetAddress) :=
  match splitOnce (ascii '/') (asBytes s) with
  | none => some (.error .noSlash)
  | some (addr, mask) =>
    (Address.fromBytes addr).map fun
      | .error error => .error (.parseAddrError error)
      | .ok address =>
        match NetMask.fromBytes mask with
        | .error error => .error (.parseMaskError error)
        | .ok mask => .ok ⟨address, mask⟩

end NetAddress

namespace AddressStr

/-- Only digits, a colon and the brackets are printed, so there is no slash. -/
private theorem slash_notMem (h : IsBody body) : ascii '/' ∉ ascii '<' :: body ++ [ascii '>'] := by
  intro hmem
  rcases mem_append.mp hmem with hmem | hmem
  · rcases mem_cons.mp hmem with hmem | hmem
    · exact absurd hmem (by decide)
    · rcases h.2.1 _ hmem with hdigit | hcolon
      · exact absurd hdigit (by decide)
      · exact absurd hcolon (by decide)
  · exact absurd (mem_singleton.mp hmem) (by decide)

/-- Which bytes are parsed as which address. -/
private theorem fromBytes_spec (bytes : List UInt8) :
    (Address.fromBytes bytes).isSome ∧ ∀ a, Address.fromBytes bytes = some (.ok a) ↔
      ∃ body, bytes = ascii '<' :: body ++ [ascii '>'] ∧ IsBody body ∧
        a.intoU64.toNat = value body := by
  obtain ⟨r, hr, hu⟩ := fromStr_spec bytes
  rw [Address.fromBytes, hr]
  refine ⟨rfl, fun a => ?_⟩
  rw [← hu]
  cases r with
  | none => simp
  | some u =>
    simp only [map_some, Option.some.injEq, Except.ok.injEq]
    exact ⟨fun h => congrArg Address.intoU64 h, fun h => Address.ext h⟩

/-- What is printed is parsed back. -/
private theorem display_spec (a : Address) :
    ∃ s, a.display = some s ∧ Address.fromBytes (asBytes s) = some (.ok a) ∧
      ascii '/' ∉ asBytes s := by
  obtain ⟨chars, hchars, hascii, body, hbytes, hbody, hdigits⟩ := toChars_spec a.intoU64
  have hs : asBytes (String.ofList chars) = ascii '<' :: body ++ [ascii '>'] := by
    rw [asBytes_ofList hascii, hbytes]
  refine ⟨String.ofList chars, by rw [Address.display, hchars]; rfl, ?_, ?_⟩
  · refine ((fromBytes_spec _).2 a).mpr ⟨body, hs, hbody, ?_⟩
    rw [value, hdigits, ← numeral_eq_ofDigits, numeral_digits]
  · rw [hs]
    exact slash_notMem hbody

/-- The sixty-five masks are parsed back. -/
private theorem mask_parses (m : NetMask) : NetMask.fromBytes (asBytes m.display) = .ok m := by
  obtain ⟨bits, hbits⟩ := m
  have hall : ∀ bits < 65, ((Nat.toDigits 10 bits).all fun c => c.toNat < 128) ∧
      fromStrRadix 255 10 ((Nat.toDigits 10 bits).map ascii) = .ok bits := by decide
  obtain ⟨hascii, hparse⟩ := hall bits (Nat.lt_succ_of_le hbits)
  simp only [List.all_eq_true, decide_eq_true_eq] at hascii
  have hcast : (UInt8.ofNat bits).toNat = bits := by
    rw [UInt8.toNat_ofNat', Nat.mod_eq_of_lt (by omega)]
  rw [NetMask.fromBytes, NetMask.display, asBytes_ofList hascii, hparse]
  simp only [NetMask.tryFrom, hcast, hbits, dite_true]
  rfl

/-- A subnet is read back. -/
private theorem net_display_spec (n : NetAddress) :
    ∃ s, n.display = some s ∧ NetAddress.fromStr s = some (.ok n) := by
  obtain ⟨s, hs, hparse, hslash⟩ := display_spec n.address
  refine ⟨_, by rw [NetAddress.display, hs, map_some], ?_⟩
  have hsplit : splitOnce (ascii '/') (asBytes (s ++ "/" ++ n.mask.display)) =
      some (asBytes s, asBytes n.mask.display) := by
    rw [asBytes_append, asBytes_append, show asBytes "/" = [ascii '/'] by decide,
      append_assoc]
    exact splitOnce_append hslash
  rw [NetAddress.fromStr, hsplit]
  simp only [hparse, mask_parses, map_some]

private theorem net_fromStr_isSome (s : String) : (NetAddress.fromStr s).isSome := by
  rw [NetAddress.fromStr]
  split
  · rfl
  · rw [isSome_map]
    exact (fromBytes_spec _).1

/-- **Addresses and subnets as text.** What is printed is parsed back, and nothing makes the
parsers panic. The texts of addresses are a body between brackets, of at most sixteen bytes, all
of them hexadecimal digits except at most one colon; its value has the sixteen digits of the body,
with the zeros that are missing in place of the colon, or on the left. -/
theorem address_text_forms :
    (∀ a : Address, ∃ s, a.display = some s ∧ Address.fromStr s = some (.ok a)) ∧
      (∀ n : NetAddress, ∃ s, n.display = some s ∧ NetAddress.fromStr s = some (.ok n)) ∧
      (∀ s, (Address.fromStr s).isSome ∧ (NetAddress.fromStr s).isSome) ∧
      ∀ s a, Address.fromStr s = some (.ok a) ↔
        ∃ body, asBytes s = ascii '<' :: body ++ [ascii '>'] ∧ IsBody body ∧
          (sixteenDigits body).length = 16 ∧
          a.intoU64.toNat = Nat.ofDigits 16 (sixteenDigits body).reverse := by
  refine ⟨fun a => ?_, net_display_spec,
    fun s => ⟨(fromBytes_spec _).1, net_fromStr_isSome s⟩, fun s a => ?_⟩
  · obtain ⟨s, hs, hparse, -⟩ := display_spec a
    exact ⟨s, hs, hparse⟩
  · rw [Address.fromStr, (fromBytes_spec _).2]
    refine exists_congr fun body => and_congr_right fun _ => and_congr_right fun hbody => ?_
    exact (and_iff_right hbody.length_sixteenDigits).symm

end AddressStr

example : (Address.mk 0xFF0000FF0000FF00#64).display = some "<ff:ff0000ff00>" := by decide

end Mm1
