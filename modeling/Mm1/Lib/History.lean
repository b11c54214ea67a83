import Mm1.Lib.Transition

/-!
# Runs with their history

A system whose calls return a value is a function `call : S → L → Option (S × O)`; a call that it
does not accept is `none`. `step call` runs it and keeps a log: each call with the state in which
it was made and with the value it returned, the latest first.

What a run has done so far is said by past operators over the log. `e ∈ log` with a condition on
`e` is "at some time before", and `Since p q log` is "`p` at some time before, and `q` ever
since".

* `log_invariant`: the invariant rule for a state together with its log;
* `reaches_of_log_eq`: a state that a run has passed is reached by what the log has before it;
* `collect`: what the calls of a log have brought, the earliest first;
* `since_cons`, `Since.mono`, `Since.exists_mem`: the laws of `Since` that the proofs use.
-/

namespace History

open List Transition

variable {S L O α : Type*} {call : S → L → Option (S × O)} {s₀ : S}

/-- A call that was made. -/
structure Event (S L O : Type*) where
  /-- the state in which the call was made -/
  before : S
  label : L
  output : O

/-- A state with the calls that led to it, the latest first. -/
structure Logged (S L O : Type*) where
  state : S
  log : List (Event S L O)

/-- The state in which a run starts. -/
def Logged.start (s : S) : Logged S L O := ⟨s, []⟩

/-- Make a call and write it down. -/
def step (call : S → L → Option (S × O)) (s : Logged S L O) (l : L) : Option (Logged S L O) :=
  (call s.state l).map fun r => ⟨r.1, ⟨s.state, l, r.2⟩ :: s.log⟩

theorem step_eq_some {s s' : Logged S L O} {l : L} (h : step call s l = some s') :
    ∃ o, call s.state l = some (s'.state, o) ∧ s'.log = ⟨s.state, l, o⟩ :: s.log := by
  obtain ⟨r, hr, rfl⟩ := Option.map_eq_some_iff.mp h
  exact ⟨r.2, hr, rfl⟩

/-- **The invariant rule for a state and its log.** -/
theorem log_invariant {ok : Logged S L O → L → Prop} {s : Logged S L O}
    {P : S → List (Event S L O) → Prop} (h : Reaches (step call) ok (.start s₀) s) (h₀ : P s₀ [])
    (hstep : ∀ {s s' log l o}, P s log → ok ⟨s, log⟩ l → call s l = some (s', o) →
      P s' (⟨s, l, o⟩ :: log)) : P s.state s.log := by
  refine h.invariant (P := fun s => P s.state s.log) h₀ ?_
  intro s l s' hP hok hs
  obtain ⟨o, hcall, hlog⟩ := step_eq_some hs
  rw [hlog]
  exact hstep hP hok hcall

/-- **A state that a run has passed** is reached by the part of the run before it. -/
theorem reaches_of_log_eq {ok : Logged S L O → L → Prop} {s : Logged S L O}
    (h : Reaches (step call) ok (.start s₀) s) {later earlier : List (Event S L O)}
    {e : Event S L O} (hlog : s.log = later ++ e :: earlier) :
    Reaches (step call) ok (.start s₀) ⟨e.before, earlier⟩ ∧
      ∃ s', call e.before e.label = some (s', e.output) := by
  induction h generalizing later with
  | refl => simp [Logged.start] at hlog
  | @tail s s' l hs _ hstep ih =>
    obtain ⟨o, hcall, hlog'⟩ := step_eq_some hstep
    rw [hlog'] at hlog
    cases later with
    | nil =>
      obtain ⟨rfl, rfl⟩ := List.cons.inj hlog
      exact ⟨hs, s'.state, hcall⟩
    | cons e' later => exact ih (List.cons.inj hlog).2

theorem reaches_of_log_append {ok : Logged S L O → L → Prop} {s : Logged S L O}
    (h : Reaches (step call) ok (.start s₀) s) {later earlier : List (Event S L O)}
    (hlog : s.log = later ++ earlier) : ∃ t, Reaches (step call) ok (.start s₀) ⟨t, earlier⟩ := by
  rcases eq_nil_or_concat later with rfl | ⟨later, e, rfl⟩
  · obtain rfl : s.log = earlier := hlog
    exact ⟨s.state, h⟩
  · rw [concat_eq_append, append_assoc] at hlog
    exact ⟨e.before, (reaches_of_log_eq h hlog).1⟩

/-- What the calls of a log have brought, the earliest first. -/
def collect (f : Event S L O → List α) (log : List (Event S L O)) : List α := log.reverse.flatMap f

section Collect

variable {f : Event S L O → List α} {e : Event S L O} {log log' : List (Event S L O)} {x : α}

@[simp] theorem collect_nil : collect f [] = [] := rfl

@[simp] theorem collect_cons : collect f (e :: log) = collect f log ++ f e := by
  simp [collect, flatMap_append]

theorem collect_append : collect f (log ++ log') = collect f log' ++ collect f log := by
  simp [collect, flatMap_append]

theorem mem_collect : x ∈ collect f log ↔ ∃ e ∈ log, x ∈ f e := by
  simp [collect]

end Collect

/-- `p` held at some time before, and `q` has held ever since. -/
def Since (p q : α → Prop) : List α → Prop
  | [] => False
  | e :: log => p e ∨ q e ∧ Since p q log

variable {p q p' q' : α → Prop} {e : α} {log : List α}

@[simp] theorem since_nil : ¬ Since p q [] := id

@[simp] theorem since_cons : Since p q (e :: log) ↔ p e ∨ q e ∧ Since p q log := Iff.rfl

instance Since.decidable [DecidablePred p] [DecidablePred q] :
    (log : List α) → Decidable (Since p q log)
  | [] => instDecidableFalse
  | e :: log =>
    haveI := Since.decidable log
    inferInstanceAs (Decidable (p e ∨ q e ∧ Since p q log))

theorem Since.mono (hp : ∀ e, p e → p' e) (hq : ∀ e, q e → q' e) (h : Since p q log) :
    Since p' q' log := by
  induction log with
  | nil => exact h
  | cons e log ih => exact h.imp (hp e) (And.imp (hq e) ih)

theorem Since.exists_mem (h : Since p q log) : ∃ e ∈ log, p e := by
  induction log with
  | nil => exact h.elim
  | cons e log ih =>
    rcases h with he | ⟨-, hlog⟩
    · exact ⟨e, mem_cons_self, he⟩
    · obtain ⟨f, hf, hpf⟩ := ih hlog
      exact ⟨f, mem_cons_of_mem _ hf, hpf⟩

end History
