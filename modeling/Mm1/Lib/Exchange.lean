import Mathlib.Data.List.Infix
import Mathlib.Logic.Function.Basic
import Mm1.Lib.Transition

/-!
# Two parties that write and read at the same time

A party is a program that goes through rounds. In a round it writes some data and, at the same
time, reads: it asks for a number of items, goes on with what it got, and asks again. A round ends
when everything is written and everything is read; then the next round begins. A failure ends the
party at once.

Two parties are connected by two streams. What a party writes may arrive in pieces of any size, at
any time, and each party goes on whenever it can. A party that fails closes its stream; the other
one finds out when it has read all there is, or when it writes.

The rounds of a conversation are known when the two programs are (`Plays`). A party is at some
place in its rounds (`Pos`), and the two are never more than one round apart:

* `Pos.write`, `Pos.read`: a party that writes or reads goes on along its rounds;
* `Pos.idle`: if neither party can go on, both are at the end of the rounds;
* `Plan.Inv.ends`, `Plan.length_le`: so a conversation ends, and well for both parties or for
  neither.
-/

namespace Exchange

open Transition List Function

variable {B : Type} {rest : List (List B × List B)} {n : ℕ}

/-! ### Programs -/

/-- A party. -/
inductive Prog (B : Type)
  | done
  | fail
  /-- read so many items and go on -/
  | read (n : ℕ) (k : List B → Prog B)
  /-- wait until everything is written, then begin a round: write these items, and read -/
  | round (out : List B) (next : Prog B)

/-- A program that runs: what is left to write, and what has been read of what it asks for. -/
structure Proc (B : Type) where
  todo : List B
  prog : Prog B
  buf : List B

namespace Prog

/-- The program after some input: how far it gets within the round. -/
def advance : Prog B → List B → Prog B × List B
  | read n k, buf =>
    if n ≤ buf.length then (k (buf.take n)).advance (buf.drop n) else (read n k, buf)
  | done, buf => (done, buf)
  | fail, buf => (fail, buf)
  | round out next, buf => (round out next, buf)

/-- How far a program gets, beyond the round if everything is written. -/
def settle : Prog B → List B → List B → Proc B
  | read n k, todo, buf =>
    if n ≤ buf.length then (k (buf.take n)).settle todo (buf.drop n) else ⟨todo, read n k, buf⟩
  | done, todo, buf => ⟨todo, done, buf⟩
  | fail, todo, buf => ⟨todo, fail, buf⟩
  | round out next, [], buf => next.settle out buf
  | round out next, b :: todo, buf => ⟨b :: todo, round out next, buf⟩

/-- The beginning of a program. -/
def start (p : Prog B) : Proc B := p.settle [] []

def IsRead : Prog B → Prop
  | read _ _ => True
  | _ => False

theorem isRead_iff {p : Prog B} : p.IsRead ↔ ∃ n k, p = read n k := by
  cases p <;> simp [IsRead]

theorem advance_of_not_isRead {p : Prog B} (h : ¬ p.IsRead) (x : List B) :
    p.advance x = (p, x) := by
  cases p with
  | read n k => exact absurd trivial h
  | _ => rfl

theorem advance_read_of_lt {k : List B → Prog B} {x : List B} (h : x.length < n) :
    (read n k).advance x = (read n k, x) := by
  rw [advance, if_neg (Nat.not_le.mpr h)]

/-- Input may come in parts. -/
theorem advance_append (p : Prog B) (x y : List B) :
    p.advance (x ++ y) = (p.advance x).1.advance ((p.advance x).2 ++ y) := by
  induction p generalizing x with
  | read n k ih =>
    by_cases h : n ≤ x.length
    · have h' : n ≤ (x ++ y).length := by rw [length_append]; omega
      rw [advance, if_pos h', take_append_of_le_length h, drop_append_of_le_length h,
        ih, advance, if_pos h]
    · rw [advance_read_of_lt (Nat.not_le.mp h)]
  | _ => rfl

/-- A program that asks for more has less than it asks for. -/
theorem length_lt_of_advance {p : Prog B} {x b : List B} {k : List B → Prog B}
    (h : p.advance x = (read n k, b)) : b.length < n := by
  induction p generalizing x with
  | read n' k' ih =>
    rw [advance] at h
    split at h
    · exact ih _ h
    · next hlt =>
      obtain ⟨hp, rfl⟩ := Prod.mk.inj h
      obtain ⟨rfl, -⟩ := Prog.read.inj hp
      exact Nat.not_le.mp hlt
  | _ =>
    obtain ⟨hp, -⟩ := Prod.mk.inj h
    contradiction

theorem settle_advance (p : Prog B) (todo x : List B) :
    p.settle todo x = (p.advance x).1.settle todo (p.advance x).2 := by
  induction p generalizing todo x with
  | read n k ih =>
    by_cases h : n ≤ x.length
    · rw [settle, if_pos h, advance, if_pos h, ih]
    · rw [advance_read_of_lt (Nat.not_le.mp h)]
  | _ => rfl

theorem settle_append (p : Prog B) (todo x y : List B) :
    p.settle todo (x ++ y) = (p.advance x).1.settle todo ((p.advance x).2 ++ y) := by
  rw [settle_advance, advance_append, ← settle_advance]

theorem settle_of_ne_nil {p : Prog B} {todo : List B} (h : todo ≠ []) (x : List B) :
    p.settle todo x = ⟨todo, (p.advance x).1, (p.advance x).2⟩ := by
  induction p generalizing x with
  | read n k ih =>
    by_cases hle : n ≤ x.length
    · rw [settle, if_pos hle, advance, if_pos hle, ih]
    · rw [settle, if_neg hle, advance, if_neg hle]
  | round out next _ =>
    obtain ⟨b, todo, rfl⟩ := exists_cons_of_ne_nil h
    rfl
  | _ => rfl

theorem settle_of_isRead {p : Prog B} {x : List B} (h : (p.advance x).1.IsRead) (todo : List B) :
    p.settle todo x = ⟨todo, (p.advance x).1, (p.advance x).2⟩ := by
  obtain ⟨n, k, hread⟩ := isRead_iff.mp h
  have hlt : (p.advance x).2.length < n := length_lt_of_advance (Prod.ext hread rfl)
  rw [settle_advance, hread, settle, if_neg (Nat.not_le.mpr hlt)]

end Prog

/-- Within a round, reading exactly this input leads to the program `p'`. -/
def Reads (next : Prog B) (i : List B) (p' : Prog B) : Prop :=
  next.advance i = (p', []) ∧ ¬ p'.IsRead

theorem Reads.unique {next p p' : Prog B} {i : List B} (h : Reads next i p)
    (h' : Reads next i p') : p = p' :=
  congrArg Prod.fst (h.1.symm.trans h'.1)

theorem reads_nil {p' : Prog B} (h : ¬ p'.IsRead) : Reads p' [] p' :=
  ⟨Prog.advance_of_not_isRead h [], h⟩

theorem Reads.read {k : List B → Prog B} {p' : Prog B} {x y : List B} (hx : x.length = n)
    (h : Reads (k x) y p') : Reads (.read n k) (x ++ y) p' := by
  refine ⟨?_, h.2⟩
  rw [Prog.advance, if_pos (by rw [length_append]; omega), take_left' hx,
    drop_left' hx]
  exact h.1

theorem reads_read {k : List B → Prog B} {x : List B} (hx : x.length = n) (h : ¬ (k x).IsRead) :
    Reads (.read n k) x (k x) := by
  have hreads := (reads_nil h).read hx
  rwa [append_nil] at hreads

/-- Before the end of the input the program asks for more. -/
theorem Reads.waits {next p' : Prog B} {y z : List B} (h : Reads next (y ++ z) p')
    (hz : z ≠ []) :
    ∃ n k, (next.advance y).1 = .read n k ∧ n ≤ (next.advance y).2.length + z.length := by
  obtain ⟨heq, hnot⟩ := h
  rw [Prog.advance_append] at heq
  by_cases hread : (next.advance y).1.IsRead
  · obtain ⟨n, k, hk⟩ := Prog.isRead_iff.mp hread
    refine ⟨n, k, hk, ?_⟩
    by_contra hlt
    rw [hk, Prog.advance_read_of_lt (by rw [length_append]; omega)] at heq
    obtain ⟨rfl, -⟩ := Prod.mk.inj heq
    exact hnot trivial
  · rw [Prog.advance_of_not_isRead hread] at heq
    have hnil := (Prod.mk.inj heq).2
    exact absurd (append_eq_nil_iff.mp hnil).2 hz

theorem Reads.settle_eq {next p' : Prog B} {i : List B} (h : Reads next i p') :
    next.settle [] i = p'.start := by
  rw [Prog.settle_advance, h.1]
  rfl

/-- Within the round nothing else begins. -/
theorem Reads.settle_within {next p' : Prog B} {x' y y' : List B} (h : Reads next (y ++ y') p')
    (hne : x' ≠ [] ∨ y' ≠ []) :
    next.settle x' y = ⟨x', (next.advance y).1, (next.advance y).2⟩ := by
  obtain hx | hy := hne
  · exact Prog.settle_of_ne_nil hx y
  · obtain ⟨n, k, hk, -⟩ := h.waits hy
    exact Prog.settle_of_isRead (Prog.isRead_iff.mpr ⟨n, k, hk⟩) x'

/-! ### Rounds -/

/-- How a party ends after some rounds. -/
inductive End (B : Type)
  | done
  | fail
  /-- it begins one more round, writes these items, and waits for an item -/
  | blocked (out : List B)

/-- What a party writes after the rounds. -/
def End.out : End B → List B
  | blocked out => out
  | _ => []

def Ends : Prog B → End B → Prop
  | p, .done => p.start = ⟨[], .done, []⟩
  | p, .fail => p.start = ⟨[], .fail, []⟩
  | p, .blocked out => ∃ n k, p = .round out (.read (n + 1) k)

/-- The program goes through these rounds (what it writes and what it reads) and ends so. -/
def Plays : Prog B → List (List B × List B) → End B → Prop
  | p, [], e => Ends p e
  | p, (o, i) :: rest, e => ∃ next p', p = .round o next ∧ Reads next i p' ∧ Plays p' rest e

/-- The first round of a play. -/
theorem Plays.exists_reads {o o' i : List B} {next : Prog B} {e : End B}
    (h : Plays (.round o next) ((o', i) :: rest) e) : ∃ p', Reads next i p' ∧ Plays p' rest e := by
  obtain ⟨next', p', hround, hreads, hrest⟩ := h
  obtain ⟨-, rfl⟩ := Prog.round.inj hround
  exact ⟨p', hreads, hrest⟩

/-- After the first of its rounds the program goes on with the others. -/
theorem Plays.tail {o o' i : List B} {next p' : Prog B} {e : End B}
    (h : Plays (.round o next) ((o', i) :: rest) e) (hreads : Reads next i p') :
    Plays p' rest e := by
  obtain ⟨p'', hreads', hrest⟩ := h.exists_reads
  exact hreads.unique hreads' ▸ hrest

/-- Everything that is written in some rounds. -/
def outs (rounds : List (List B × List B)) : List B := (rounds.map Prod.fst).flatten

/-- Everything that is read in some rounds. -/
def ins (rounds : List (List B × List B)) : List B := (rounds.map Prod.snd).flatten

/-- The place of a party in its rounds, after it has written `x` and read `y`. -/
inductive Pos : Prog B → List (List B × List B) → End B → Proc B → List B → List B → Prop
  /-- in the first of the rounds, with `x'` left to write and `y'` left to read -/
  | within {rest : List (List B × List B)} {e : End B} {next : Prog B} {x x' y y' : List B}
      (hne : x' ≠ [] ∨ y' ≠ []) :
      Pos (.round (x ++ x') next) ((x ++ x', y ++ y') :: rest) e
        ⟨x', (next.advance y).1, (next.advance y).2⟩ x y
  /-- the first of the rounds is over -/
  | beyond {o i x y : List B} {rest : List (List B × List B)} {e : End B} {next p' : Prog B}
      {c : Proc B} (hreads : Reads next i p') (h : Pos p' rest e c x y) :
      Pos (.round o next) ((o, i) :: rest) e c (o ++ x) (i ++ y)
  | done {p : Prog B} : Pos p [] .done ⟨[], .done, []⟩ [] []
  | fail {p : Prog B} : Pos p [] .fail ⟨[], .fail, []⟩ [] []
  | blocked {x x' : List B} {n : ℕ} {k : List B → Prog B} :
      Pos (.round (x ++ x') (.read (n + 1) k)) [] (.blocked (x ++ x')) ⟨x', .read (n + 1) k, []⟩
        x []

variable {p q : Prog B} {rounds : List (List B × List B)} {e e' : End B} {c c' : Proc B}
  {x x' y y' : List B} {i : Bool} {acts : List Act}

/-- The position at the start. -/
theorem pos_start (h : Plays p rounds e) : Pos p rounds e p.start [] [] := by
  induction rounds generalizing p with
  | nil =>
    cases e with
    | blocked out =>
      obtain ⟨n, k, rfl⟩ := h
      exact .blocked (x := []) (n := n) (k := k)
    | done =>
      rw [show p.start = _ from h]
      exact .done
    | fail =>
      rw [show p.start = _ from h]
      exact .fail
  | cons r rest ih =>
    obtain ⟨o, i⟩ := r
    obtain ⟨next, p', rfl, hreads, hrest⟩ := h
    by_cases hne : o ≠ [] ∨ i ≠ []
    · have hsettle : next.settle o [] = _ := Reads.settle_within (y := []) hreads hne
      change Pos _ _ _ (next.settle o []) [] []
      rw [hsettle]
      exact .within (x := []) (y := []) hne
    · push Not at hne
      obtain ⟨rfl, rfl⟩ := hne
      change Pos _ _ _ (next.settle [] []) [] []
      rw [hreads.settle_eq]
      exact .beyond hreads (ih hrest)

/-- The place in the first round after some writing and reading, whether it is over or not. -/
theorem Pos.of_settle {next : Prog B}
    (h : Plays (.round (x ++ x') next) ((x ++ x', y ++ y') :: rest) e) :
    Pos (.round (x ++ x') next) ((x ++ x', y ++ y') :: rest) e (next.settle x' y) x y := by
  obtain ⟨p', hreads, hrest⟩ := h.exists_reads
  by_cases hne : x' ≠ [] ∨ y' ≠ []
  · rw [hreads.settle_within hne]
    exact .within hne
  · push Not at hne
    obtain ⟨rfl, rfl⟩ := hne
    rw [append_nil] at hreads
    rw [hreads.settle_eq]
    simpa using Pos.beyond (o := x) hreads (pos_start hrest)

/-- **A party that writes** goes on along its rounds. -/
theorem Pos.write (h : Pos p rounds e c x y) (hp : Plays p rounds e) {b todo : List B}
    (hb : b ≠ []) (htodo : c.todo = b ++ todo) :
    Pos p rounds e (c.prog.settle todo c.buf) (x ++ b) y := by
  induction h with
  | @within rest e next x x' y y' hne =>
    obtain rfl : x' = b ++ todo := htodo
    rw [← append_assoc] at hp ⊢
    rw [← Prog.settle_advance]
    exact .of_settle hp
  | beyond hreads h ih =>
    rw [append_assoc]
    exact .beyond hreads (ih (hp.tail hreads) htodo)
  | done | fail => exact absurd (append_eq_nil_iff.mp htodo.symm).1 hb
  | @blocked x x' n k =>
    obtain rfl : x' = b ++ todo := htodo
    rw [← append_assoc]
    exact .blocked

/-- **A party that reads** no more than it asks for goes on along its rounds. -/
theorem Pos.read (h : Pos p rounds e c x y) (hp : Plays p rounds e) {k : List B → Prog B}
    (hprog : c.prog = .read n k) {b extra : List B} (hb : b ≠ [])
    (hle : c.buf.length + b.length ≤ n) (hin : y ++ b <+: ins rounds ++ extra)
    (hextra : ∀ out, e = .blocked out → extra = []) :
    Pos p rounds e (c.prog.settle c.todo (c.buf ++ b)) x (y ++ b) := by
  induction h with
  | @within rest e next x x' y y' hne =>
    obtain ⟨p', hreads, -⟩ := hp.exists_reads
    have hy' : y' ≠ [] := by
      rintro rfl
      rw [append_nil] at hreads
      rw [hreads.1] at hprog
      obtain rfl : p' = .read n k := hprog
      exact hreads.2 trivial
    -- the program asks for no more than is left of the input of the round
    obtain ⟨n', k', hk', hn'⟩ := hreads.waits hy'
    obtain ⟨rfl, rfl⟩ := Prog.read.inj (hprog.symm.trans hk')
    have hle' : (next.advance y).2.length + b.length ≤ n := hle
    have hpre : b <+: y' := by
      rw [ins, map_cons, flatten_cons, append_assoc, append_assoc, prefix_append_right_inj] at hin
      exact prefix_of_prefix_length_le hin (prefix_append y' _) (by omega)
    obtain ⟨y'', rfl⟩ := hpre
    rw [← append_assoc] at hp ⊢
    rw [← Prog.settle_append]
    exact .of_settle hp
  | @beyond o i x y rest e next p' c hreads h ih =>
    rw [append_assoc] at hin ⊢
    rw [ins, map_cons, flatten_cons, append_assoc, prefix_append_right_inj] at hin
    exact .beyond hreads (ih (hp.tail hreads) hprog hle hin hextra)
  | done | fail => contradiction
  | blocked =>
    rw [hextra _ rfl] at hin
    exact absurd (prefix_nil.mp hin) (by simpa using hb)

/-- What was written is a beginning of the plan. -/
theorem Pos.prefix_outs (h : Pos p rounds e c x y) : x <+: outs rounds ++ e.out := by
  induction h with
  | @within rest e next x x' y y' hne =>
    rw [outs, map_cons, flatten_cons, append_assoc, append_assoc]
    exact prefix_append _ _
  | @beyond o i x y rest e next p' c hreads h ih =>
    rw [outs, map_cons, flatten_cons, append_assoc, prefix_append_right_inj]
    exact ih
  | done | fail => exact prefix_refl _
  | blocked => exact prefix_append _ _

/-- The place of a party in the first of its rounds, or beyond it. A party in the first round with
nothing to write waits for input. -/
theorem Pos.cases_cons {o i : List B} (h : Pos p ((o, i) :: rest) e c x y)
    (hp : Plays p ((o, i) :: rest) e) :
    (∃ x' y', o = x ++ x' ∧ i = y ++ y' ∧ c.todo = x' ∧ (x' = [] → y' ≠ [] ∧ c.prog.IsRead)) ∨
      ∃ p' x₁ y₁, x = o ++ x₁ ∧ y = i ++ y₁ ∧ Plays p' rest e ∧ Pos p' rest e c x₁ y₁ := by
  obtain ⟨next, p', rfl, hreads, hrest⟩ := hp
  cases h with
  | @within _ _ _ x x' y y' hne =>
    refine .inl ⟨x', y', rfl, rfl, rfl, fun hx' => ?_⟩
    have hy' : y' ≠ [] := hne.resolve_left (not_not_intro hx')
    obtain ⟨n, k, hk, -⟩ := hreads.waits hy'
    exact ⟨hy', Prog.isRead_iff.mpr ⟨n, k, hk⟩⟩
  | beyond hreads' h =>
    obtain rfl := hreads.unique hreads'
    exact .inr ⟨_, _, _, rfl, rfl, hrest, h⟩

/-- A party after its rounds. -/
def AtEnd : End B → Proc B → Prop
  | .done, c => c.prog = .done
  | .fail, c => c.prog = .fail
  | .blocked _, c => c.prog.IsRead

theorem Pos.cases_nil (h : Pos p [] e c x y) : AtEnd e c ∧ y = [] ∧ e.out = x ++ c.todo := by
  cases h with
  | done | fail => exact ⟨rfl, rfl, rfl⟩
  | blocked => exact ⟨trivial, rfl, rfl⟩

theorem Plays.ne_fail (h : Plays p rounds .done) : p ≠ .fail := by
  rintro rfl
  cases rounds with
  | nil =>
    have hstart : (⟨[], .fail, []⟩ : Proc B) = ⟨[], .done, []⟩ := h
    have hprog : Prog.fail = Prog.done := congrArg Proc.prog hstart
    contradiction
  | cons r rest =>
    obtain ⟨next, p', hround, -⟩ := h
    contradiction

section Positions

variable (h : Pos p rounds e c x y)

include h

/-- A party whose rounds end well has not failed. -/
theorem Pos.ne_fail (hp : Plays p rounds e) (he : e = .done) : c.prog ≠ .fail := by
  induction h with
  | @within rest e next x x' y y' hne =>
    obtain ⟨p', hreads, hrest⟩ := hp.exists_reads
    by_cases hy' : y' = []
    · subst hy' he
      rw [append_nil] at hreads
      change (next.advance y).1 ≠ .fail
      rw [hreads.1]
      exact hrest.ne_fail
    · obtain ⟨n, k, hk, -⟩ := hreads.waits hy'
      change (next.advance y).1 ≠ .fail
      rw [hk]
      intro hfail
      contradiction
  | beyond hreads h ih => exact ih (hp.tail hreads) he
  | done =>
    intro hfail
    contradiction
  | fail | blocked => contradiction

/-- A party whose rounds do not end well is not done. -/
theorem Pos.ne_done (hp : Plays p rounds e) (he : e ≠ .done) (htodo : c.todo = []) :
    c.prog ≠ .done := by
  induction rounds generalizing p x y with
  | nil =>
    intro hdone
    obtain ⟨hend, -⟩ := h.cases_nil
    cases e with
    | done => exact he rfl
    | fail =>
      have hfail : Prog.done = Prog.fail := hdone.symm.trans hend
      contradiction
    | blocked out =>
      rw [AtEnd, hdone] at hend
      exact hend
  | cons r rest ih =>
    obtain ⟨x', y', -, -, hx', hwait⟩ | ⟨p', x₁, y₁, -, -, hrest, h⟩ := h.cases_cons hp
    · intro hdone
      have hread := (hwait (hx'.symm.trans htodo)).2
      rw [hdone] at hread
      exact hread
    · exact ih h hrest

/-- **If neither party can go on, both are at the end.** Each has read at most what the other has
written, and a party that waits has read all of it. -/
theorem Pos.idle (h' : Pos q (rounds.map Prod.swap) e' c' x' y') (hp : Plays p rounds e)
    (hq : Plays q (rounds.map Prod.swap) e') (hyx : y <+: x') (hyx' : y' <+: x)
    (htodo : c.todo = []) (htodo' : c'.todo = []) (hread : c.prog.IsRead → y = x')
    (hread' : c'.prog.IsRead → y' = x) :
    (AtEnd e c ∧ y = ins rounds ∧ x = outs rounds ++ e.out) ∧
      AtEnd e' c' ∧ y' = outs rounds ∧ x' = ins rounds ++ e'.out := by
  induction rounds generalizing p q x y x' y' with
  | nil =>
    obtain ⟨hend, rfl, hout⟩ := h.cases_nil
    obtain ⟨hend', rfl, hout'⟩ := h'.cases_nil
    rw [htodo, append_nil] at hout
    rw [htodo', append_nil] at hout'
    exact ⟨⟨hend, rfl, hout.symm⟩, hend', rfl, hout'.symm⟩
  | cons r rest ih =>
    obtain ⟨o, i⟩ := r
    have hq : Plays q ((i, o) :: rest.map Prod.swap) e' := hq
    have h' : Pos q ((i, o) :: rest.map Prod.swap) e' c' x' y' := h'
    obtain ⟨x₁, y₁, ho, hi, hx₁, hwait⟩ | ⟨p', x₁, y₁, rfl, rfl, hrest, h⟩ := h.cases_cons hp
    -- the first party waits in this round for what the second one has written before
    · obtain ⟨hy₁, hisRead⟩ := hwait (hx₁.symm.trans htodo)
      obtain rfl := hread hisRead
      exfalso
      obtain ⟨x₂, y₂, hi', -, hx₂, -⟩ | ⟨q', x₂, y₂, rfl, -⟩ := h'.cases_cons hq
      · obtain rfl : x₂ = [] := hx₂.symm.trans htodo'
        rw [hi, append_right_inj] at hi'
        exact hy₁ hi'
      · rw [append_assoc, self_eq_append_right, append_eq_nil_iff] at hi
        exact hy₁ hi.2
    · obtain ⟨x₂, y₂, -, ho, hx₂, hwait⟩ | ⟨q', x₂, y₂, rfl, rfl, hrest', h'⟩ := h'.cases_cons hq
      -- the second one waits in this round for what the first one has written before
      · obtain ⟨hy₂, hisRead⟩ := hwait (hx₂.symm.trans htodo')
        obtain rfl := hread' hisRead
        rw [append_assoc, self_eq_append_right, append_eq_nil_iff] at ho
        exact absurd ho.2 hy₂
      · rw [prefix_append_right_inj] at hyx hyx'
        rw [append_right_inj] at hread hread'
        obtain ⟨⟨hend, rfl, rfl⟩, hend', rfl, rfl⟩ := ih h h' hrest hrest' hyx hyx' hread hread'
        simp [hend, hend', ins, outs]

/-- A party that waits has less than it asks for. -/
theorem Pos.length_buf_lt {k : List B → Prog B} (hprog : c.prog = .read n k) :
    c.buf.length < n := by
  induction h with
  | within hne => exact Prog.length_lt_of_advance (Prod.ext hprog rfl)
  | beyond hreads h ih => exact ih hprog
  | done | fail => contradiction
  | blocked =>
    obtain ⟨rfl, -⟩ := Prog.read.inj hprog
    exact Nat.succ_pos _

/-- A party that has written everything reads. -/
theorem Pos.isRead (hp : Plays p rounds e) (htodo : c.todo = []) (hdone : c.prog ≠ .done)
    (hfail : c.prog ≠ .fail) : c.prog.IsRead := by
  induction rounds generalizing p x y with
  | nil =>
    obtain ⟨hend, -⟩ := h.cases_nil
    cases e with
    | done => exact absurd hend hdone
    | fail => exact absurd hend hfail
    | blocked out => exact hend
  | cons r rest ih =>
    obtain ⟨x', y', -, -, hx', hwait⟩ | ⟨p', x₁, y₁, -, -, hrest, h⟩ := h.cases_cons hp
    · exact (hwait (hx'.symm.trans htodo)).2
    · exact ih h hrest

/-- A party that is done has read everything that it reads in its rounds. -/
theorem Pos.eq_ins (hp : Plays p rounds e) (htodo : c.todo = []) (hdone : c.prog = .done) :
    y = ins rounds := by
  induction rounds generalizing p x y with
  | nil => exact h.cases_nil.2.1
  | cons r rest ih =>
    obtain ⟨x', y', -, -, hx', hwait⟩ | ⟨p', x₁, y₁, -, rfl, hrest, h⟩ := h.cases_cons hp
    · have hread := (hwait (hx'.symm.trans htodo)).2
      rw [hdone] at hread
      exact hread.elim
    · rw [ih h hrest]
      rfl

end Positions

/-! ### Two parties -/

/-- A party with what it has written so far and how much it has read. -/
structure Side (B : Type) extends Proc B where
  sent : List B
  taken : ℕ

/-- Two parties, each connected to the other. -/
abbrev Pair (B : Type) := Bool → Side B

instance (p : Prog B) : Decidable p.IsRead :=
  match p with
  | .read _ _ => isTrue trivial
  | .done => isFalse id
  | .fail => isFalse id
  | .round _ _ => isFalse id

def Prog.IsFail : Prog B → Prop
  | fail => True
  | _ => False

instance (p : Prog B) : Decidable p.IsFail :=
  match p with
  | .fail => isTrue trivial
  | .done => isFalse id
  | .read _ _ => isFalse id
  | .round _ _ => isFalse id

theorem Prog.isFail_iff : p.IsFail ↔ p = .fail := by
  cases p <;> simp [IsFail]

/-- A step of one of the parties. -/
inductive Act
  | write (i : Bool) (k : ℕ)
  | read (i : Bool) (k : ℕ)
  /-- the other party has failed: there is nothing more to read, or a write is refused -/
  | lost (i : Bool)

/-- The steps: any number of items of what is to be written, and any number of items of what is
there to be read. -/
def step (s : Pair B) : Act → Option (Pair B)
  | .write i k =>
    if ¬ (s i).prog.IsFail ∧ 0 < k ∧ k ≤ (s i).todo.length then
      some (update s i ⟨(s i).prog.settle ((s i).todo.drop k) (s i).buf,
        (s i).sent ++ (s i).todo.take k, (s i).taken⟩)
    else none
  | .read i k =>
    match (s i).prog with
    | .read n _ =>
      if 0 < k ∧ (s i).buf.length + k ≤ n ∧ (s i).taken + k ≤ (s !i).sent.length then
        some (update s i ⟨(s i).prog.settle (s i).todo
          ((s i).buf ++ ((s !i).sent.drop (s i).taken).take k), (s i).sent, (s i).taken + k⟩)
      else none
    | _ => none
  | .lost i =>
    if (s !i).prog.IsFail ∧ ¬ (s i).prog.IsFail ∧ (0 < (s i).todo.length ∨
        (s i).prog.IsRead ∧ (s i).taken = (s !i).sent.length) then
      some (update s i ⟨⟨[], .fail, []⟩, (s i).sent, (s i).taken⟩)
    else none

/-- The two parties before anything is written. -/
def start (p : Bool → Prog B) : Pair B := fun i => ⟨(p i).start, [], 0⟩

/-- A party is done. -/
def Side.Done (s : Side B) : Prop := s.prog = .done ∧ s.todo = []

def Side.Failed (s : Side B) : Prop := s.prog = .fail

/-- **What a step can do** to the party that makes it; the other one stays as it is. -/
theorem step_cases {s s' : Pair B} {a : Act} (h : step s a = some s') :
    ∃ i t, s' = update s i t ∧ (s i).prog ≠ .fail ∧
      ((∃ b todo, b ≠ [] ∧ (s i).todo = b ++ todo ∧
          t = ⟨(s i).prog.settle todo (s i).buf, (s i).sent ++ b, (s i).taken⟩) ∨
        (∃ n k b, b ≠ [] ∧ (s i).prog = .read n k ∧ (s i).buf.length + b.length ≤ n ∧
          (s i).taken + b.length ≤ (s !i).sent.length ∧
          (s !i).sent.take (s i).taken ++ b = (s !i).sent.take ((s i).taken + b.length) ∧
          t = ⟨(s i).prog.settle (s i).todo ((s i).buf ++ b), (s i).sent, (s i).taken + b.length⟩) ∨
        (s !i).prog = .fail ∧ t = ⟨⟨[], .fail, []⟩, (s i).sent, (s i).taken⟩) := by
  cases a with
  | write i k =>
    rw [step] at h
    split at h
    · next hok =>
      obtain ⟨hfail, hpos, hle⟩ := hok
      refine ⟨i, _, (Option.some.inj h).symm, fun heq => hfail (Prog.isFail_iff.mpr heq), .inl ?_⟩
      refine ⟨(s i).todo.take k, (s i).todo.drop k, ?_, (take_append_drop _ _).symm, rfl⟩
      exact ne_nil_of_length_pos (by rw [length_take]; omega)
    · contradiction
  | read i k =>
    rw [step] at h
    split at h
    · next n cont hprog =>
      split at h
      · next hok =>
        obtain ⟨hpos, hle, hthere⟩ := hok
        obtain ⟨b, hb⟩ : ∃ b, ((s !i).sent.drop (s i).taken).take k = b := ⟨_, rfl⟩
        have hlen : k = b.length := by
          rw [← hb, length_take, length_drop]
          omega
        have htake := take_add (l := (s !i).sent) (i := (s i).taken) (j := k)
        rw [hb] at h htake
        subst hlen
        have hfail : (s i).prog ≠ .fail := by
          rw [hprog]
          intro hfail
          contradiction
        exact ⟨i, _, (Option.some.inj h).symm, hfail, .inr (.inl ⟨n, cont, b,
          ne_nil_of_length_pos hpos, hprog, hle, hthere, htake.symm, rfl⟩)⟩
      · contradiction
    · contradiction
  | lost i =>
    rw [step] at h
    split at h
    · next hok =>
      obtain ⟨hpeer, hfail, -⟩ := hok
      exact ⟨i, _, (Option.some.inj h).symm, fun heq => hfail (Prog.isFail_iff.mpr heq),
        .inr (.inr ⟨Prog.isFail_iff.mp hpeer, rfl⟩)⟩
    · contradiction

/-! ### Conversations -/

/-- The rounds of two programs, as the party `false` sees them, and how each of the two ends: either
both well, or neither, and then at most one of them waits for the other. -/
structure Plan (p : Bool → Prog B) where
  rounds : List (List B × List B)
  ends : Bool → End B
  plays_false : Plays (p false) rounds (ends false)
  plays_true : Plays (p true) (rounds.map Prod.swap) (ends true)
  done : ∀ i, ends i = .done → ends (!i) = .done
  blocked : ∀ i out, ends i = .blocked out → ends (!i) = .fail

namespace Plan

variable {p : Bool → Prog B} (P : Plan p) {s s' : Pair B} {a : Act}

/-- The rounds as a party sees them. -/
def roundsOf : Bool → List (List B × List B)
  | false => P.rounds
  | true => P.rounds.map Prod.swap

theorem roundsOf_not (i : Bool) : P.roundsOf (!i) = (P.roundsOf i).map Prod.swap := by
  cases i with
  | false => rfl
  | true =>
    rw [roundsOf, map_map, Prod.swap_swap_eq, map_id]
    rfl

theorem plays (i : Bool) : Plays (p i) (P.roundsOf i) (P.ends i) := by
  cases i with
  | false => exact P.plays_false
  | true => exact P.plays_true

/-- Everything that a party may write. -/
def output (i : Bool) : List B := outs (P.roundsOf i) ++ (P.ends i).out

theorem output_not (i : Bool) : P.output (!i) = ins (P.roundsOf i) ++ (P.ends !i).out := by
  rw [output, roundsOf_not, outs, ins, map_map]
  rfl

/-- A conversation without any rounds. -/
def ofEnds (ends : Bool → End B) (h : ∀ i, Ends (p i) (ends i))
    (hdone : ∀ i, ends i = .done → ends (!i) = .done)
    (hblocked : ∀ i out, ends i = .blocked out → ends (!i) = .fail) : Plan p where
  rounds := []
  ends := ends
  plays_false := h false
  plays_true := h true
  done := hdone
  blocked := hblocked

/-- One more round before a conversation. -/
def cons {q : Bool → Prog B} (P : Plan q) (o : Bool → List B)
    (h : ∀ i, ∃ next, p i = .round (o i) next ∧ Reads next (o !i) (q i)) : Plan p where
  rounds := (o false, o true) :: P.rounds
  ends := P.ends
  plays_false :=
    let ⟨next, hround, hreads⟩ := h false
    ⟨next, _, hround, hreads, P.plays_false⟩
  plays_true :=
    let ⟨next, hround, hreads⟩ := h true
    ⟨next, _, hround, hreads, P.plays_true⟩
  done := P.done
  blocked := P.blocked

theorem ins_cons {q : Bool → Prog B} (P : Plan q) (o : Bool → List B)
    (h : ∀ i, ∃ next, p i = .round (o i) next ∧ Reads next (o !i) (q i)) (i : Bool) :
    ins ((P.cons o h).roundsOf i) = o (!i) ++ ins (P.roundsOf i) := by
  cases i <;> rfl

/-- Each party is at some place in its rounds, or has failed. -/
structure Inv (s : Pair B) : Prop where
  taken_le : ∀ i, (s i).taken ≤ (s !i).sent.length
  sent_prefix : ∀ i, (s i).sent <+: P.output i
  pos : ∀ i, Pos (p i) (P.roundsOf i) (P.ends i) (s i).toProc (s i).sent
      ((s !i).sent.take (s i).taken) ∨ (s i).Failed ∧ P.ends i ≠ .done

theorem inv_start : P.Inv (start p) where
  taken_le _ := le_rfl
  sent_prefix _ := nil_prefix
  pos i := .inl (pos_start (P.plays i))

variable {P}

/-- A party that has failed was not to end well. -/
theorem Inv.ne_done (h : P.Inv s) (hfail : (s i).prog = .fail) : P.ends i ≠ .done := by
  obtain hpos | ⟨-, hne⟩ := h.pos i
  · exact fun hdone => hpos.ne_fail (P.plays i) hdone hfail
  · exact hne

theorem not_done_of_not (h : P.ends (!i) ≠ .done) : P.ends i ≠ .done :=
  fun hdone => h (P.done i hdone)

theorem forall_bool {Q : Bool → Prop} (h : Q i) (h' : Q (!i)) (j : Bool) : Q j := by
  cases i <;> cases j <;> assumption

/-- The part of the invariant that is about one party, after a step of it. -/
theorem Inv.update (h : P.Inv s) {t : Side B} (htaken : t.taken ≤ (s !i).sent.length)
    (hsent : (s i).sent <+: t.sent) (hpre : t.sent <+: P.output i)
    (hpos : Pos (p i) (P.roundsOf i) (P.ends i) t.toProc t.sent ((s !i).sent.take t.taken) ∨
      t.Failed ∧ P.ends i ≠ .done) :
    P.Inv (Function.update s i t) := by
  have hself : Function.update s i t i = t := Function.update_self ..
  have hother : Function.update s i t (!i) = s (!i) :=
    Function.update_of_ne (by cases i <;> decide) ..
  refine ⟨forall_bool (i := i) ?_ ?_, forall_bool (i := i) ?_ ?_, forall_bool (i := i) ?_ ?_⟩
  · rw [hself, hother]
    exact htaken
  · rw [Bool.not_not, hself, hother]
    have hle := h.taken_le (!i)
    rw [Bool.not_not] at hle
    exact hle.trans hsent.length_le
  · rw [hself]
    exact hpre
  · rw [hother]
    exact h.sent_prefix (!i)
  · rw [hself, hother]
    exact hpos
  · -- what the other party has read is not changed by what is written after it
    have hle := h.taken_le (!i)
    have hpos' := h.pos (!i)
    rw [Bool.not_not] at hle hpos' ⊢
    rw [hself, hother]
    obtain ⟨more, hmore⟩ := hsent
    rw [← hmore, take_append_of_le_length hle]
    exact hpos'

/-- **A step keeps the invariant.** -/
theorem Inv.step (h : P.Inv s) (hs : step s a = some s') : P.Inv s' := by
  obtain ⟨i, t, rfl, hfail, hwrite | hread | ⟨hpeer, rfl⟩⟩ := step_cases hs
  · obtain ⟨b, todo, hb, htodo, rfl⟩ := hwrite
    have hpos := (h.pos i).resolve_right fun hf => hfail hf.1
    have hpos' := hpos.write (P.plays i) hb htodo
    exact h.update (h.taken_le i) (prefix_append _ _) hpos'.prefix_outs (.inl hpos')
  · obtain ⟨n, k, b, hb, hprog, hle, hthere, htake, rfl⟩ := hread
    have hpos := (h.pos i).resolve_right fun hf => hfail hf.1
    have hin : (s !i).sent.take (s i).taken ++ b <+:
        ins (P.roundsOf i) ++ (P.ends !i).out := by
      rw [htake, ← P.output_not]
      exact ( take_prefix _ _).trans (h.sent_prefix (!i))
    have hextra (out : List B) (hout : P.ends i = .blocked out) : (P.ends !i).out = [] := by
      rw [P.blocked i out hout]
      rfl
    have hpos' := hpos.read (P.plays i) hprog hb hle hin hextra
    rw [htake] at hpos'
    exact h.update hthere (prefix_refl _) (h.sent_prefix i) (.inl hpos')
  · have hne := not_done_of_not (h.ne_done hpeer)
    exact h.update (h.taken_le i) (prefix_refl _) (h.sent_prefix i) (.inr ⟨rfl, hne⟩)

/-- A party that is done has read everything that the other one writes, and the other one has not
failed. -/
theorem Inv.of_done (h : P.Inv s) (hdone : (s i).Done) :
    P.ends i = .done ∧ ¬ (s !i).Failed ∧ (s !i).sent = ins (P.roundsOf i) ∧
      (s i).taken = (s !i).sent.length := by
  obtain ⟨hprog, htodo⟩ := hdone
  have hpos := (h.pos i).resolve_right fun hf => by
    have hfail : Prog.fail = Prog.done := hf.1.symm.trans hprog
    contradiction
  have hend : P.ends i = .done := by_contra fun hne => hpos.ne_done (P.plays i) hne htodo hprog
  have hend' := P.done i hend
  have hins := hpos.eq_ins (P.plays i) htodo hprog
  have hpre := h.sent_prefix (!i)
  rw [P.output_not, hend', show End.out .done = [] from rfl, append_nil] at hpre
  have hall : (s !i).sent = ins (P.roundsOf i) := hpre.eq_of_length_le (hins ▸ length_take_le' _ _)
  refine ⟨hend, fun hfail => h.ne_done hfail hend', hall, ?_⟩
  rw [← hall] at hins
  have hlen := congrArg List.length hins
  rw [length_take] at hlen
  have hle := h.taken_le i
  omega

/-- A party that cannot go on: it has written everything, the other one has not failed, and if it
waits it has read everything there is. -/
theorem Inv.of_stuck (h : P.Inv s) (hstuck : ∀ a, Exchange.step s a = none)
    (hfail : ¬ (s i).Failed) :
    (s i).todo = [] ∧ ((s i).prog.IsRead → (s i).taken = (s !i).sent.length ∧ ¬ (s !i).Failed) := by
  have hnot : ¬ (s i).prog.IsFail := fun hf => hfail (Prog.isFail_iff.mp hf)
  have htodo : (s i).todo = [] := by
    by_contra hne
    have hwrite := hstuck (.write i 1)
    rw [Exchange.step, if_pos ⟨hnot, Nat.one_pos, length_pos_of_ne_nil hne⟩] at hwrite
    contradiction
  refine ⟨htodo, fun hisRead => ?_⟩
  have hall : (s i).taken = (s !i).sent.length := by
    by_contra hne
    obtain ⟨n, k, hprog⟩ := Prog.isRead_iff.mp hisRead
    have hlt := ((h.pos i).resolve_right fun hf => hfail hf.1).length_buf_lt hprog
    have hle := h.taken_le i
    have hread := hstuck (.read i 1)
    simp only [Exchange.step, hprog] at hread
    rw [if_pos ⟨Nat.one_pos, hlt, by omega⟩] at hread
    contradiction
  refine ⟨hall, fun hpeer => ?_⟩
  have hlost := hstuck (.lost i)
  rw [Exchange.step, if_pos ⟨Prog.isFail_iff.mpr hpeer, hnot, .inr ⟨hisRead, hall⟩⟩] at hlost
  contradiction

/-- If neither party can go on or has failed, both are at the end of their rounds. -/
theorem Inv.atEnd (h : P.Inv s) (hstuck : ∀ a, Exchange.step s a = none)
    (hfail : ∀ i, ¬ (s i).Failed) (i : Bool) : AtEnd (P.ends i) (s i).toProc := by
  have hpos (j : Bool) := (h.pos j).resolve_right fun hf => hfail j hf.1
  have hread (j : Bool) (hisRead : (s j).prog.IsRead) :
      (s !j).sent.take (s j).taken = (s !j).sent :=
    take_of_length_le ((h.of_stuck hstuck (hfail j)).2 hisRead).1.ge
  have hpos' := hpos (!i)
  have hplays' := P.plays (!i)
  have hread' := hread (!i)
  rw [Bool.not_not] at hpos' hread'
  rw [P.roundsOf_not] at hpos' hplays'
  obtain ⟨⟨hend, -⟩, -⟩ := (hpos i).idle hpos' (P.plays i) hplays' ( take_prefix _ _)
    ( take_prefix _ _) (h.of_stuck hstuck (hfail i)).1 (h.of_stuck hstuck (hfail !i)).1
    (hread i) hread'
  exact hend

/-- **Where a conversation ends**: both parties are done, or both have failed. -/
theorem Inv.ends (h : P.Inv s) (hstuck : ∀ a, Exchange.step s a = none) :
    (∀ i, (s i).Done) ∨ ∀ i, (s i).Failed := by
  by_cases hdone : P.ends false = .done
  · have hall : ∀ i, P.ends i = .done := forall_bool hdone (P.done false hdone)
    have hfail (i : Bool) : ¬ (s i).Failed := fun hf => h.ne_done hf (hall i)
    refine .inl fun i => ⟨?_, (h.of_stuck hstuck (hfail i)).1⟩
    have hend := h.atEnd hstuck hfail i
    rw [hall i] at hend
    exact hend
  · have hnone : ∀ i, P.ends i ≠ .done := forall_bool hdone fun htrue => hdone (P.done true htrue)
    refine .inr (by_contra fun hnot => ?_)
    obtain ⟨i, hfail⟩ := not_forall.mp hnot
    -- a party that has not failed waits for the other one, which then has not failed either
    obtain ⟨htodo, hwait⟩ := h.of_stuck hstuck hfail
    have hpos := (h.pos i).resolve_right fun hf => hfail hf.1
    have hisRead := hpos.isRead (P.plays i) htodo (hpos.ne_done (P.plays i) (hnone i) htodo) hfail
    have hboth : ∀ j, ¬ (s j).Failed := forall_bool hfail (hwait hisRead).2
    cases hend : P.ends i with
    | done => exact hnone i hend
    | fail =>
      have hat := h.atEnd hstuck hboth i
      rw [hend] at hat
      exact hfail hat
    | blocked out =>
      have hat := h.atEnd hstuck hboth (!i)
      rw [P.blocked i out hend] at hat
      exact hboth (!i) hat

/-! ### Conversations are finite -/

/-- Whether a party has failed, as a number. -/
def failures (p : Prog B) : ℕ := if p.IsFail then 1 else 0

/-- What a party has done. -/
def work (t : Side B) : ℕ := t.sent.length + t.taken + failures t.prog

/-- Each step does some of the work. -/
theorem work_lt_of_step (hs : Exchange.step s a = some s') :
    work (s false) + work (s true) < work (s' false) + work (s' true) := by
  obtain ⟨i, t, rfl, hfail, hcases⟩ := step_cases hs
  have hzero : failures (s i).prog = 0 := if_neg fun hf => hfail (Prog.isFail_iff.mp hf)
  have hlt : work (s i) < work t := by
    rw [work, hzero]
    obtain ⟨b, todo, hb, -, rfl⟩ | ⟨n, k, b, hb, -, -, -, -, rfl⟩ | ⟨-, rfl⟩ := hcases
    · have hpos := length_pos_of_ne_nil hb
      simp only [work, length_append]
      omega
    · have hpos := length_pos_of_ne_nil hb
      simp only [work]
      omega
    · exact Nat.lt_succ_self _
  cases i with
  | false | true => simpa using hlt

/-- A run is no longer than its work. -/
theorem length_le_of_exec (h : exec Exchange.step (fun _ _ => True) s acts = some s') :
    acts.length + (work (s false) + work (s true)) ≤ work (s' false) + work (s' true) := by
  induction acts generalizing s with
  | nil =>
    obtain rfl : s = s' := Option.some.inj h
    exact (Nat.zero_add _).le
  | cons a acts ih =>
    rw [exec, if_pos trivial] at h
    obtain ⟨s₁, hs, h⟩ := Option.bind_eq_some_iff.mp h
    have hlt := work_lt_of_step hs
    have hle := ih h
    rw [length_cons]
    omega

/-- The work is bounded. -/
theorem Inv.work_le (h : P.Inv s) (i : Bool) :
    work (s i) ≤ (P.output i).length + (P.output !i).length + 1 := by
  have hsent := (h.sent_prefix i).length_le
  have htaken := (h.taken_le i).trans (h.sent_prefix (!i)).length_le
  have hfail : failures (s i).prog ≤ 1 := by
    rw [failures]
    split <;> omega
  rw [work]
  omega

/-- **A conversation ends** after no more steps than this. -/
theorem length_le (h : exec Exchange.step (fun _ _ => True) (Exchange.start p) acts = some s)
    (hinv : P.Inv s) :
    acts.length ≤ 2 * ((P.output false).length + (P.output true).length + 1) := by
  have hle := length_le_of_exec h
  have hfalse := hinv.work_le false
  have htrue := hinv.work_le true
  simp only [Bool.not_false, Bool.not_true] at hfalse htrue
  omega

end Plan

end Exchange
