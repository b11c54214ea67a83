import Mm1.Lib.Settle

/-!
# A flag whose other side may go away

Two parties each keep a flag, as in `Mm1.Lib.Mirror`, but flags are only ever set by the parties
themselves. What clears a flag is the news that the other party is gone, which answers a message
that comes too late.

`Pending w x y gone xy yx` is the invariant seen from the party `x` that stays: if its flag is
going to be set, then so is the flag of `y`, or `y` will still answer. Once `y` is gone and
nothing is on its way, the flag of `x` is clear.
-/

namespace Settle

variable {M : Type*} {w : M → Option Bool} {x y b gone : Bool} {xy yx l l' q o : List M} {m : M}
  {ans : List M}

/-- How many messages of `l` write `b`. -/
def writes (w : M → Option Bool) (b : Bool) (l : List M) : ℕ := l.countP fun m => w m = some b

@[simp] theorem writes_nil : writes w b [] = 0 := rfl

@[simp] theorem writes_cons :
    writes w b (m :: l) = writes w b l + if w m = some b then 1 else 0 := by
  simp [writes, List.countP_cons]

@[simp] theorem writes_append : writes w b (l ++ l') = writes w b l + writes w b l' :=
  List.countP_append

theorem writes_eq_zero : writes w b l = 0 ↔ ∀ m ∈ l, w m ≠ some b := by
  simp [writes, List.countP_eq_zero]

/-- A clear flag that no message sets stays clear. -/
theorem settle_of_writes_true (h : writes w true l = 0) : settle w false l = false :=
  settle_const (writes_eq_zero.mp h)

/-- A flag that no message sets and some message clears is clear in the end. -/
theorem settle_of_writes_false (h : writes w true l = 0) (h' : writes w false l ≠ 0) :
    settle w b l = false := by
  refine settle_written (writes_eq_zero.mp h) ?_
  rw [Ne, writes_eq_zero] at h'
  push Not at h'
  obtain ⟨m, hm, hw⟩ := h'
  exact ⟨m, hm, by rw [hw]; exact Option.some_ne_none _⟩

theorem settle_of_writes (h : writes w true l = 0) (h' : writes w false l = 0) :
    settle w b l = b := by
  cases b with
  | false => exact settle_of_writes_true h
  | true => exact settle_const (writes_eq_zero.mp h')

/-- `ans` answers a message that comes too late: a message that sets the flag of the receiver is
answered by one that clears the flag of the sender. -/
structure Answers (w : M → Option Bool) (m : M) (ans : List M) : Prop where
  set : writes w true ans = 0
  clear : writes w false ans = if w m = some true then 1 else 0

/-- The flag `x` of a party that stays, the flag `y` of a party that may go away, and the
messages between them. -/
structure Pending (w : M → Option Bool) (x y gone : Bool) (xy yx : List M) : Prop where
  link : settle w x yx = true → settle w y xy = true
  /-- a message of `y` that sets the flag is on its way, or its answer, but not two of them -/
  once : writes w true yx + writes w false xy ≤ 1
  held : writes w true yx + writes w false xy ≠ 0 → y = true ∨ gone = true

namespace Pending

theorem start : Pending w false false gone [] [] where
  link := id
  once := Nat.zero_le 1
  held h := absurd rfl h

/-- Once `y` is gone and nothing is on its way, the flag of `x` is clear. -/
theorem clear (h : Pending w x false gone [] []) : x = false :=
  Bool.eq_false_iff.mpr fun hx => Bool.false_ne_true (h.link hx)

/-- A message that does not write the flag is sent by `x`. -/
theorem insert (h : Pending w x y gone (q ++ o) yx) (hm : w m = none) :
    Pending w x y gone (q ++ m :: o) yx := by
  obtain ⟨hlink, honce, hheld⟩ := h
  refine ⟨fun hx => ?_, ?_, ?_⟩
  · have hy := hlink hx
    rw [settle_append] at hy
    rwa [settle_append, settle_cons, hm, Option.getD_none]
  · simpa [hm] using honce
  · simpa [hm] using hheld

/-- A message that does not write the flag is sent by `y`. -/
theorem insert' (h : Pending w x y gone xy (q ++ o)) (hm : w m = none) :
    Pending w x y gone xy (q ++ m :: o) := by
  obtain ⟨hlink, honce, hheld⟩ := h
  refine ⟨fun hx => hlink ?_, ?_, ?_⟩
  · rw [settle_append, settle_cons, hm, Option.getD_none] at hx
    rwa [settle_append]
  · simpa [hm] using honce
  · simpa [hm] using hheld

/-- The party `x` sets its flag. -/
theorem send (h : Pending w x y gone xy yx) (hm : w m = some true) :
    Pending w true y gone (xy ++ [m]) yx where
  link _ := by rw [settle_append, settle_cons, hm, settle_nil, Option.getD_some]
  once := by simpa [hm] using h.once
  held := by simpa [hm] using h.held

/-- **The party `y` sets its flag**: then neither an earlier message of this kind nor its answer
is on its way. -/
theorem send' (h : Pending w x false false xy yx) (hm : w m = some true) :
    Pending w x true false xy (yx ++ [m]) := by
  have hzero : writes w true yx + writes w false xy = 0 := by
    by_contra hne
    rcases h.held hne with h | h
    · exact Bool.false_ne_true h
    · exact Bool.false_ne_true h
  refine ⟨fun _ => ?_, ?_, fun _ => .inl rfl⟩
  · exact settle_const (writes_eq_zero.mp (Nat.add_eq_zero_iff.mp hzero).2)
  · rw [writes_append, writes_cons, writes_nil, if_pos hm]
    omega

/-- The party `x` handles a message. -/
theorem recv (h : Pending w x y gone xy (m :: yx)) : Pending w ((w m).getD x) y gone xy yx := by
  obtain ⟨hlink, honce, hheld⟩ := h
  rw [writes_cons] at honce hheld
  exact ⟨hlink, by omega, fun hne => hheld (by omega)⟩

/-- **The party `y` handles a message.** After the answer to its own message nothing of that
kind is on its way any more. -/
theorem recv' (h : Pending w x y gone (m :: xy) yx) : Pending w x ((w m).getD y) gone xy yx := by
  obtain ⟨hlink, honce, hheld⟩ := h
  rw [writes_cons] at honce hheld
  refine ⟨hlink, by omega, fun hne => ?_⟩
  cases hw : w m with
  | none => exact hheld (by omega)
  | some c =>
    cases c with
    | true => exact .inl rfl
    | false =>
      rw [if_pos hw] at honce
      omega

/-- **A message of `y` comes before `x` is there**: the answer takes its place. -/
theorem refuse (h : Pending w false y gone (q ++ o) (m :: yx)) (hans : Answers w m ans) :
    Pending w false y gone (q ++ (ans ++ o)) yx := by
  obtain ⟨hlink, honce, hheld⟩ := h
  have hcount : writes w true yx + writes w false (q ++ (ans ++ o)) =
      writes w true (m :: yx) + writes w false (q ++ o) := by
    simp only [writes_append, writes_cons, hans.clear]
    omega
  refine ⟨fun hx => ?_, hcount ▸ honce, hcount ▸ hheld⟩
  by_cases hw : w m = some true
  · -- there is no other message that could set the flag
    have hzero : writes w true yx = 0 := by
      rw [writes_cons, if_pos hw] at honce
      omega
    rw [settle_of_writes_true hzero] at hx
    exact absurd hx Bool.false_ne_true
  · have hsilent : writes w false ans = 0 := hans.clear.trans (if_neg hw)
    have hy := hlink (by
      rw [settle_cons]
      cases hc : w m with
      | none => exact hx
      | some c =>
        cases c with
        | true => exact absurd hc hw
        | false => exact hx)
    rw [settle_append] at hy
    rwa [settle_append, settle_append, settle_of_writes hans.set hsilent]

/-- **A message of `x` is not handled by `y`**, because `y` is not there, or because the message
is lost. Behind the answer nothing sets the flag of `x`. -/
theorem answer {ans q' o' : List M} (h : Pending w x y gone (q ++ m :: o) (q' ++ o'))
    (hans : Answers w m ans) (ho : writes w true o' = 0) :
    Pending w x y gone (q ++ o) (q' ++ (ans ++ o')) := by
  obtain ⟨hlink, honce, hheld⟩ := h
  simp only [writes_append, writes_cons] at honce hheld
  refine ⟨fun hx => ?_, ?_, fun hne => ?_⟩
  · rw [settle_append, settle_append] at hx
    by_cases hw : w m = some true
    · have hclear : writes w false ans ≠ 0 := by
        rw [hans.clear, if_pos hw]
        exact Nat.one_ne_zero
      rw [settle_of_writes_false hans.set hclear, settle_of_writes_true ho] at hx
      exact absurd hx Bool.false_ne_true
    · have hsilent : writes w false ans = 0 := hans.clear.trans (if_neg hw)
      rw [settle_of_writes hans.set hsilent, ← settle_append] at hx
      exact settle_erase hw (hlink hx)
  · simp only [writes_append, hans.set]
    omega
  · simp only [writes_append, hans.set] at hne
    exact hheld (by omega)

/-- The next message of `x` finds that `y` is not there. -/
theorem answer_head (h : Pending w x y gone (m :: xy) yx) (hans : Answers w m ans) :
    Pending w x y gone xy (yx ++ ans) := by
  have h' : Pending w x y gone ([] ++ m :: xy) (yx ++ []) := by rwa [List.append_nil]
  simpa only [List.nil_append, List.append_nil] using h'.answer hans writes_nil

/-- **The party `y` goes away**, and tells `x` if its flag is set. -/
theorem leave {out : List M} (h : Pending w x y gone xy yx) (hset : writes w true out = 0)
    (hclear : writes w false out = if y = true then 1 else 0) :
    Pending w x false true xy (yx ++ out) := by
  obtain ⟨hlink, honce, -⟩ := h
  refine ⟨fun hx => ?_, ?_, fun _ => .inr rfl⟩
  · rw [settle_append] at hx
    cases y with
    | true =>
      rw [settle_of_writes_false hset (by rw [hclear]; decide)] at hx
      exact absurd hx Bool.false_ne_true
    | false =>
      rw [settle_of_writes hset hclear] at hx
      exact hlink hx
  · rw [writes_append, hset]
    exact honce

end Pending

end Settle
