import Mathlib.Logic.Relation
import Mm1.Runtime.Focus

/-!
# Two forks

Links and watches are between two forks. `view home s x y` is what the system `s` says about the
forks `x` and `y`: the phase of each container, what each job entry says about the other fork
(`Rel`), and the messages on their way from one to the other (`flight`), the oldest first.

`Acts` lists what can happen to this view when the container of `x` acts. `view_step` says that a
step of the system is a sequence of such changes on either side. The invariants about links and
watches are proved over `Acts`.
-/

namespace Mm1

open Option List Function

/-- What a job entry says about one peer. -/
@[ext] structure Rel where
  linked : Bool := false
  watches : Finset WatchRef := ∅
  watchedBy : Finset WatchRef := ∅

/-- What the entry `e` says about `z`. -/
def JobEntry.rel (e : JobEntry) (z : Address) : Rel where
  linked := z ∈ e.linkedTo
  watches := e.refsOf z
  watchedBy := (e.watchedBy.filter fun p => p.1 = z).image Prod.snd

/-- The same after a message from this peer. -/
def Rel.recv (r : Rel) : SysMsg → Rel
  | .link (.connect _ _) => { r with linked := true }
  | .link (.disconnect _ _) => { r with linked := false }
  | .link (.exit _ _ .terminate) => r
  | .link (.exit _ _ _) => { r with linked := false }
  | .watch (.watch _ _ ref) => { r with watchedBy := insert ref r.watchedBy }
  | .watch (.unwatch _ _ ref) => { r with watchedBy := r.watchedBy.erase ref }
  | .watch (.down _ _ _) => { r with watchedBy := ∅, watches := ∅ }
  | .kill | .forkDone _ => r

namespace JobEntry

variable {e : JobEntry} {y z : Address} {r : WatchRef} {m : SysMsg}

@[simp] theorem rel_linked : (e.rel z).linked = true ↔ z ∈ e.linkedTo := decide_eq_true_iff

@[simp] theorem mem_rel_watches : r ∈ (e.rel z).watches ↔ (z, r) ∈ e.watches := mem_refsOf

@[simp] theorem mem_rel_watchedBy : r ∈ (e.rel z).watchedBy ↔ (z, r) ∈ e.watchedBy := by
  simp [rel]

private theorem rel_empty : JobEntry.rel {} z = {} := by
  ext <;> simp [rel, refsOf]

/-- Two relations are equal when they hold the same links and watches. -/
private theorem rel_eq {r r' : Rel} (hl : r.linked = true ↔ r'.linked = true)
    (hw : ∀ a, a ∈ r.watches ↔ a ∈ r'.watches)
    (hb : ∀ a, a ∈ r.watchedBy ↔ a ∈ r'.watchedBy) : r = r' :=
  Rel.ext (Bool.eq_iff_iff.mpr hl) (Finset.ext hw) (Finset.ext hb)

/-- A link, in the relation. -/
private theorem rel_link : ({ e with linkedTo := insert z e.linkedTo } : JobEntry).rel y =
    if z = y then { e.rel y with linked := true } else e.rel y := by
  split
  case isTrue h => subst h; exact rel_eq (by simp) (by simp) (by simp)
  case isFalse h => exact rel_eq (by simp [Ne.symm h]) (by simp) (by simp)

/-- The end of a link, in the relation. -/
private theorem rel_unlink : ({ e with linkedTo := e.linkedTo.erase z } : JobEntry).rel y =
    if z = y then { e.rel y with linked := false } else e.rel y := by
  split
  case isTrue h => subst h; exact rel_eq (by simp) (by simp) (by simp)
  case isFalse h => exact rel_eq (by simp [Ne.symm h]) (by simp) (by simp)

/-- A watch, in the relation. -/
private theorem rel_watch : ({ e with watches := insert (z, r) e.watches } : JobEntry).rel y =
    if z = y then { e.rel y with watches := insert r (e.rel y).watches } else e.rel y := by
  split
  case isTrue h => subst h; exact rel_eq (by simp) (by simp) (by simp)
  case isFalse h => exact rel_eq (by simp) (by simp [Ne.symm h]) (by simp)

/-- The end of a watch, in the relation. -/
private theorem rel_unwatch : ({ e with watches := e.watches.erase (z, r) } : JobEntry).rel y =
    if z = y then { e.rel y with watches := (e.rel y).watches.erase r } else e.rel y := by
  split
  case isTrue h => subst h; exact rel_eq (by simp) (by simp) (by simp)
  case isFalse h => exact rel_eq (by simp) (by simp [Ne.symm h]) (by simp)

/-- A message changes the relation to its sender. -/
private theorem rel_recv {f : Address} (hm : m.route = some (z, f)) :
    (e.recv m).rel y = if z = y then (e.rel y).recv m else e.rel y := by
  cases m with
  | kill | forkDone => contradiction
  | link l =>
    cases l with
    | connect | disconnect => cases hm; first | exact rel_link | exact rel_unlink
    | exit _ _ reason =>
      cases hm
      cases reason with
      | terminate => exact (ite_self _).symm
      | normal | linkDown => exact rel_unlink
  | watch w =>
    cases w with
    | watch | unwatch | down =>
      cases hm
      split
      case isTrue h =>
        subst h
        exact rel_eq (by simp [recv, Rel.recv]) (by simp [recv, Rel.recv])
          (by simp [recv, Rel.recv])
      case isFalse h =>
        exact rel_eq (by simp [recv]) (by simp [recv, Ne.symm h]) (by simp [recv, Ne.symm h])

end JobEntry

/-- One end of a pair of forks. -/
structure Half where
  phase : Phase
  rel : Option Rel
  ended : Bool

/-- The container of this fork may go on to phase `p`. A fork of a container that starts running
has no entry before. -/
def Half.Next (h : Half) (p : Phase) : Prop :=
  p = h.phase ∨ h.phase.Next p ∧ (p = .running → h.rel = none)

/-- Two forks and the messages between them. -/
structure View where
  x : Half
  y : Half
  xy : List SysMsg
  yx : List SysMsg

def View.swap (v : View) : View := ⟨v.y, v.x, v.yx, v.xy⟩

/-- The messages of `l` from `x` to `y`. -/
def between (x y : Address) (l : List SysMsg) : List SysMsg :=
  l.filter fun m => m.route = some (x, y)

namespace Sys

variable {ι : Type*}

/-- The messages on their way from `x` to `y`. -/
def flight (home : Address → ι) (s : Sys ι) (x y : Address) : List SysMsg :=
  between x y (s (home y)).rxSystem ++ between x y (s (home x)).outbox

def half (home : Address → ι) (s : Sys ι) (x y : Address) : Half where
  phase := (s (home x)).phase
  rel := ((s (home x)).jobEntries x).map fun e => e.rel y
  ended := (s (home x)).endedForks x

/-- What the system says about the forks `x` and `y`. -/
def view (home : Address → ι) (s : Sys ι) (x y : Address) : View where
  x := half home s x y
  y := half home s y x
  xy := flight home s x y
  yx := flight home s y x

end Sys

/-- The messages to `y` about the end of `x`. -/
def Rel.Farewell (r : Rel) (x y : Address) (normalExit : Bool) (out : List SysMsg) : Prop :=
  ∃ refs, Walks refs r.watches ∧
    out = refs.map (fun ref => .watch (.unwatch x y ref)) ++
      (if r.linked then [sysLinkExitMessage normalExit x y] else []) ++
      if r.watchedBy = ∅ then [] else [sysWatchDownMessage normalExit x y]

section Acts

variable {ι : Type*} (home : Address → ι) (s : Sys ι) (a : Action ι) (x y : Address)

/-- What can happen to the forks `x` and `y` when the container of `x` acts, or when a message
from `x` is sent. The step of the system is `a`, from the state `s`. -/
inductive Acts : View → View → Prop
  /-- the two containers may go on to the next phase -/
  | phase {v : View} {p q : Phase} (hp : v.x.Next p) (hq : v.y.Next q) :
      Acts v { v with x := { v.x with phase := p }, y := { v.y with phase := q } }
  | born {v : View} (hp : v.x.phase = .running) (hr : v.x.rel = none)
      (hxy : v.xy = s.flight home x y) (hend : v.x.ended = (s (home x)).endedForks x)
      (ha : a = .task (home x) (.call (.forkAdded x)) ∨
        ∃ l o, a = .task (home x) (.create x l o) ∧ v.x.ended = false) :
      Acts v { v with x := { v.x with rel := some {} } }
  | link {v : View} {r : Rel} (hp : v.x.phase = .running) (hr : v.x.rel = some r)
      (hl : r.linked = false) (hyx : v.yx = s.flight home y x)
      (ha : a = .task (home x) (.call (.link x y)) ∧ v.x = s.half home x y ∨
        ∃ l o, a = .task (home x) (.create x l o)) :
      Acts v { v with
        x := { v.x with rel := some { r with linked := true } }
        xy := v.xy ++ [.link (.connect x y)] }
  | unlink {v : View} {r : Rel} (hp : v.x.phase = .running) (hr : v.x.rel = some r)
      (hl : r.linked = true) (hyx : v.yx = s.flight home y x)
      (ha : a = .task (home x) (.call (.unlink x y)) ∧ v.x = s.half home x y) :
      Acts v { v with
        x := { v.x with rel := some { r with linked := false } }
        xy := v.xy ++ [.link (.disconnect x y)] }
  | watch {v : View} {r : Rel} {ref : WatchRef} (hp : v.x.phase = .running)
      (hr : v.x.rel = some r) :
      Acts v { v with
        x := { v.x with rel := some { r with watches := insert ref r.watches } }
        xy := v.xy ++ [.watch (.watch x y ref)] }
  | unwatch {v : View} {r : Rel} {ref : WatchRef} (hp : v.x.phase = .running)
      (hr : v.x.rel = some r) :
      Acts v { v with
        x := { v.x with rel := some { r with watches := r.watches.erase ref } }
        xy := v.xy ++ [.watch (.unwatch x y ref)] }
  | recv {v : View} {r : Rel} {m : SysMsg} {rest : List SysMsg} (hp : v.x.phase = .running)
      (hr : v.x.rel = some r) (hm : m.route = some (y, x)) (hyx : v.yx = m :: rest) :
      Acts v { v with x := { v.x with rel := some (r.recv m) }, yx := rest }
  | refuse {v : View} {m : SysMsg} {rest : List SysMsg} (hp : v.x.phase = .running)
      (hr : v.x.rel = none) (hm : m.route = some (y, x)) (hyx : v.yx = m :: rest)
      (hs : (s (home x)).phase = .running ∧ (s (home x)).jobEntries x = none) :
      Acts v { v with xy := v.xy ++ (m.answer .linkDown).toList, yx := rest }
  | drain {v : View} {m : SysMsg} {rest : List SysMsg} {b : Bool} (hp : v.x.phase = .draining b)
      (hm : m.route = some (y, x)) (hyx : v.yx = m :: rest) :
      Acts v { v with xy := v.xy ++ (m.answer (.ofNormal b)).toList, yx := rest }
  | gone {v : View} {r : Rel} {b : Bool} {out : List SysMsg}
      (hp : v.x.phase = .draining b ∨ v.x.phase = .running ∧ b = true ∧
        (s (home x)).rxSystem.head? = some (.forkDone x))
      (hr : v.x.rel = some r) (hout : r.Farewell x y b out) :
      Acts v { v with x := { v.x with rel := none, ended := true }, xy := v.xy ++ out }
  /-- the next message of `x` to `y` cannot be sent -/
  | lost {v : View} {m : SysMsg} {q o q' o' : List SysMsg} (hm : m.route = some (x, y))
      (hxy : v.xy = q ++ m :: o) (hyx : v.yx = q' ++ o')
      (hp : v.y.phase ≠ .running ∧ ∀ b, v.y.phase ≠ .stopping b)
      (habsent : v.y.phase = .absent → v.y.rel = none ∧ q = [])
      (hreq : ∀ m' ∈ o', ¬ m'.IsRequest)
      (ha : ∃ stale, a = .flush (home x) stale ∧ (s (home x)).outbox.head? = some m ∧
        (s (home y)).accepts stale = false) :
      Acts v { v with xy := q ++ o, yx := q' ++ ((m.answer .linkDown).toList ++ o') }
  /-- `x` asks `y` to terminate -/
  | terminate {v : View} {q o : List SysMsg} (hxy : v.xy = q ++ o)
      (ha : ∃ stale, a = .exit x y stale) :
      Acts v { v with xy := q ++ .link (.exit x y .terminate) :: o }

/-- A change on either side of the pair. -/
def PairStep (v v' : View) : Prop := Acts home s a x y v v' ∨ Acts home s a y x v.swap v'.swap

/-- The changes of one step of the system. -/
abbrev PairSteps : View → View → Prop := Relation.ReflTransGen (PairStep home s a x y)

end Acts

variable {ι : Type*} {home : Address → ι} {s : Sys ι} {a : Action ι} {x y z : Address}
  {v v' : View} {l : List SysMsg} {stale : Bool} {reason : ExitReason} {b : Bool}

private theorem Acts.steps (h : Acts home s a x y v v') : PairSteps home s a x y v v' :=
  .single (.inl h)

/-- The two sides are alike. -/
private theorem PairSteps.swap (h : PairSteps home s a x y v v') :
    PairSteps home s a y x v.swap v'.swap :=
  Relation.ReflTransGen.lift View.swap (fun _ _ h => Or.symm h) _ _ h

/-! ### Messages between two forks -/

@[simp] theorem between_nil : between x y [] = [] := rfl

@[simp] theorem between_append (l l' : List SysMsg) :
    between x y (l ++ l') = between x y l ++ between x y l' := filter_append _ _

theorem between_cons_of_route {m : SysMsg} (h : m.route = some (x, y)) :
    between x y (m :: l) = m :: between x y l := by
  simp [between, h]

private theorem between_cons_of_ne {m : SysMsg} (h : m.route ≠ some (x, y)) :
    between x y (m :: l) = between x y l := by
  simp [between, h]

private theorem between_eq_nil (h : ∀ m ∈ l, m.route ≠ some (x, y)) : between x y l = [] := by
  simpa [between] using h

theorem mem_between {m : SysMsg} : m ∈ between x y l ↔ m ∈ l ∧ m.route = some (x, y) := by
  simp [between]

private theorem between_routed (k : Container) : between x y k.routed = between x y k.rxSystem := by
  simp only [between, Container.routed, List.filter_filter]
  refine List.filter_congr fun m _ => ?_
  by_cases h : m.route = some (x, y) <;> simp [h]

/-- Of messages to distinct forks at most one is for `y`. -/
private theorem between_map_of_nodup {g : Address → SysMsg} {l : List Address}
    (hg : ∀ z, (g z).route = some (x, z)) (hl : l.Nodup) :
    between x y (l.map g) = if y ∈ l then [g y] else [] := by
  have hfilter : between x y (l.map g) = (l.filter (· = y)).map g := by
    simp [between, List.filter_map, comp_def, hg]
  rw [hfilter, List.filter_eq, hl.count]
  split <;> rfl

/-- What the last messages of a fork say to one peer. -/
private theorem between_farewell {o : Order} {e : JobEntry} (ho : o.Farewell e) :
    (e.rel y).Farewell x y b (between x y (JobEntry.farewell x b o)) := by
  obtain ⟨htargets, hpeers, hwatchers⟩ := ho
  refine ⟨(o.targets.filter fun p => p.1 = y).map Prod.snd, ⟨?_, ?_⟩, ?_⟩
  · refine List.Nodup.map_on ?_ (htargets.1.filter _)
    intro p hp q hq hpq
    simp only [List.mem_filter, decide_eq_true_eq] at hp hq
    exact Prod.ext (hp.2.trans hq.2.symm) hpq
  · ext r
    simp [← htargets.mem_iff]
  · have hunwatch : between x y (o.targets.map fun p => .watch (.unwatch x p.1 p.2)) =
        ((o.targets.filter fun p => p.1 = y).map Prod.snd).map
          fun ref => .watch (.unwatch x y ref) := by
      simp only [between, List.filter_map, List.map_map, comp_def, SysMsg.route,
        Option.some.injEq, Prod.mk.injEq, true_and]
      refine List.map_congr_left fun p hp => ?_
      rw [of_decide_eq_true (List.mem_filter.mp hp).2]
    have hexit : between x y (o.peers.map (sysLinkExitMessage b x)) =
        if (e.rel y).linked then [sysLinkExitMessage b x y] else [] := by
      rw [between_map_of_nodup (fun _ => rfl) hpeers.1]
      simp [hpeers.mem_iff]
    have hdown : between x y (o.watchers.map (sysWatchDownMessage b x)) =
        if (e.rel y).watchedBy = ∅ then [] else [sysWatchDownMessage b x y] := by
      have hempty : (e.rel y).watchedBy = ∅ ↔ y ∉ o.watchers := by
        simp [hwatchers.mem_iff, Finset.eq_empty_iff_forall_notMem]
      rw [between_map_of_nodup (fun _ => rfl) hwatchers.1, if_congr hempty rfl rfl, ite_not]
    rw [JobEntry.farewell, between_append, between_append, hunwatch, hexit, hdown]

/-- The messages of a farewell. -/
theorem Rel.Farewell.mem_cases {r : Rel} {out : List SysMsg} {m : SysMsg} (h : r.Farewell x y b out)
    (hm : m ∈ out) :
    (∃ ref, m = .watch (.unwatch x y ref)) ∨ m = .link (.exit x y (.ofNormal b)) ∨
      m = .watch (.down x y (.ofNormal b)) := by
  obtain ⟨refs, -, rfl⟩ := h
  rcases mem_append.mp hm with hm | hm
  · rcases mem_append.mp hm with hm | hm
    · obtain ⟨ref, -, rfl⟩ := mem_map.mp hm
      exact .inl ⟨ref, rfl⟩
    · split at hm
      · exact .inr (.inl (mem_singleton.mp hm))
      · exact absurd hm not_mem_nil
  · split at hm
    · exact absurd hm not_mem_nil
    · exact .inr (.inr (mem_singleton.mp hm))

/-! ### From the forks of a container to pairs of forks -/

section ForkStep

variable {a : TaskAction} {inp out : List SysMsg} {e' : Option JobEntry} {events : List Event}
  {p q : Phase} {yx : List SysMsg} {m : SysMsg} {d : Bool} {r : Option Rel}

/-- After the change itself, the containers may go on to their next phase. -/
private theorem PairSteps.phase {a : Action ι} {xy yx : List SysMsg}
    (h : PairSteps home s a x y v ⟨⟨v.x.phase, r, d⟩, v.y, xy, yx⟩)
    (hp : (⟨v.x.phase, r, d⟩ : Half).Next p) (hq : v.y.Next q) :
    PairSteps home s a x y v ⟨⟨p, r, d⟩, { v.y with phase := q }, xy, yx⟩ :=
  h.tail (.inl (.phase hp hq))

private theorem between_singleton {z : Address} (h : m.route = some (x, z)) :
    between x y [m] = if z = y then [m] else [] := by
  split
  case isTrue hz => exact between_cons_of_route (hz ▸ h)
  case isFalse hz => exact between_cons_of_ne (by simp [h, hz])

/-- An answer goes back to the sender. -/
private theorem between_answer {z : Address} (h : m.route = some (z, x)) :
    between x y (m.answer reason).toList = if z = y then (m.answer reason).toList else [] := by
  cases hm : m.answer reason with
  | none => exact (ite_self _).symm
  | some m' =>
    obtain ⟨z', x', hz', hx'⟩ := SysMsg.route_of_answer hm
    rw [h] at hz'
    cases hz'
    exact between_singleton hx'

/-- An answer that is not for the pair. -/
private theorem between_answer_of_ne {f z : Address} (h : m.route = some (z, f))
    (hne : x = f → y ≠ z) : between x y (m.answer reason).toList = [] := by
  refine between_eq_nil fun m' hm' hroute => ?_
  obtain ⟨z', x', hz', hx'⟩ := SysMsg.route_of_answer (mem_toList.mp hm')
  rw [h] at hz'
  cases hz'
  rw [hroute] at hx'
  cases hx'
  exact hne rfl rfl

/-- The fork `x` sends a request to `z`; `y` sees it if it is `z`. -/
private theorem steps_of_request {a : Action ι} {r r' : Rel} (hm : m.route = some (x, z))
    (hrel : v.x.rel = some r)
    (hact : z = y → Acts home s a x y v ⟨⟨v.x.phase, some r', v.x.ended⟩, v.y, v.xy ++ [m], v.yx⟩) :
    PairSteps home s a x y v ⟨⟨v.x.phase, some (if z = y then r' else r), v.x.ended⟩, v.y,
      v.xy ++ between x y [m], v.yx⟩ := by
  rw [between_singleton hm]
  split
  case isTrue hz => exact (hact hz).steps
  case isFalse => rw [append_nil, ← hrel]

/-- The fork `x` takes a message of `z` from its queue; `y` sees it if it is `z`. -/
private theorem steps_of_message {a : Action ι} {l : List SysMsg} (hm : m.route = some (z, x))
    (hyx : v.yx = between y x [m] ++ yx) (hact : z = y → v.yx = m :: yx →
      Acts home s a x y v ⟨⟨v.x.phase, r, v.x.ended⟩, v.y, v.xy ++ l, yx⟩) :
    PairSteps home s a x y v ⟨⟨v.x.phase, if z = y then r else v.x.rel, v.x.ended⟩, v.y,
      v.xy ++ (if z = y then l else []), yx⟩ := by
  by_cases hz : z = y
  · rw [if_pos hz, if_pos hz]
    rw [between_cons_of_route (hz ▸ hm)] at hyx
    exact (hact hz hyx).steps
  · rw [if_neg hz, if_neg hz, append_nil]
    rw [between_cons_of_ne (by simp [hm, hz])] at hyx
    obtain rfl : v.yx = yx := hyx
    exact .refl

/-- The changes of a fork other than the start of its container, seen from `y`. -/
private theorem acts_of_forkStep' (h : (s (home x)).ForkStep a x inp e' out events p)
    (hcreate : (s (home x)).phase ≠ .absent) (hinp : ∀ m ∈ inp, ∃ z, m.route = some (z, x))
    (hx : v.x = Sys.half home s x y) (hxy' : v.xy = s.flight home x y)
    (hyx' : v.yx = s.flight home y x) (hyx : v.yx = between y x inp ++ yx)
    (hd : d = (v.x.ended || ((s (home x)).jobEntries x).isSome && e'.isNone)) :
    PairSteps home s (.task (home x) a) x y v
      ⟨⟨v.x.phase, e'.map fun e => e.rel y, d⟩, v.y, v.xy ++ between x y out, yx⟩ := by
  have hphase : v.x.phase = (s (home x)).phase := congrArg Half.phase hx
  have hrel : v.x.rel = ((s (home x)).jobEntries x).map fun e => e.rel y := congrArg Half.rel hx
  cases h with
  | create _ hp => exact absurd hp hcreate
  | forkAdded ha hp he =>
    obtain rfl : d = v.x.ended := by simp [hd]
    obtain rfl : v.yx = yx := hyx
    rw [he, map_none] at hrel
    rw [between_nil, append_nil, map_some, JobEntry.rel_empty]
    exact (Acts.born (hphase.trans hp) hrel hxy' (congrArg Half.ended hx)
      (.inl (congrArg _ ha))).steps
  | @link z e _ ha hp he hz =>
    obtain rfl : d = v.x.ended := by simp [hd]
    obtain rfl : v.yx = yx := hyx
    rw [he, map_some] at hrel
    rw [map_some, JobEntry.rel_link]
    refine steps_of_request rfl hrel fun hzy => ?_
    subst hzy
    exact .link (hphase.trans hp) hrel (decide_eq_false hz) hyx' (.inl ⟨congrArg _ ha, hx⟩)
  | @unlink z e _ ha hp he hz =>
    obtain rfl : d = v.x.ended := by simp [hd]
    obtain rfl : v.yx = yx := hyx
    rw [he, map_some] at hrel
    rw [map_some, JobEntry.rel_unlink]
    refine steps_of_request rfl hrel fun hzy => ?_
    subst hzy
    exact .unlink (hphase.trans hp) hrel (decide_eq_true hz) hyx' ⟨congrArg _ ha, hx⟩
  | @watch z r e _ hp he hr =>
    obtain rfl : d = v.x.ended := by simp [hd]
    obtain rfl : v.yx = yx := hyx
    rw [he, map_some] at hrel
    rw [map_some, JobEntry.rel_watch]
    refine steps_of_request rfl hrel fun hzy => ?_
    subst hzy
    exact .watch (hphase.trans hp) hrel
  | @unwatch z r e _ hp he hr =>
    obtain rfl : d = v.x.ended := by simp [hd]
    obtain rfl : v.yx = yx := hyx
    rw [he, map_some] at hrel
    rw [map_some, JobEntry.rel_unwatch]
    refine steps_of_request rfl hrel fun hzy => ?_
    subst hzy
    exact .unwatch (hphase.trans hp) hrel
  | @recv m e _ _ _ _ hp he =>
    obtain rfl : d = v.x.ended := by simp [hd]
    obtain ⟨z, hz⟩ := hinp m mem_cons_self
    rw [he, map_some] at hrel
    rw [map_some, JobEntry.rel_recv hz, between_nil, apply_ite some, ← hrel,
      ← ite_self (c := z = y) ([] : List SysMsg)]
    refine steps_of_message hz hyx fun hzy hhead => ?_
    subst hzy
    rw [append_nil]
    exact .recv (hphase.trans hp) hrel hz hhead
  | @refuse m _ hp he =>
    obtain rfl : d = v.x.ended := by simp [hd, he]
    obtain ⟨z, hz⟩ := hinp m mem_cons_self
    rw [he, map_none] at hrel
    rw [map_none, between_answer hz, ← hrel, ← ite_self (c := z = y) v.x.rel]
    refine steps_of_message hz hyx fun hzy hhead => ?_
    subst hzy
    exact .refuse (hphase.trans hp) hrel hz hhead ⟨hp, he⟩
  | @drain m b _ hp =>
    obtain rfl : d = v.x.ended := by
      cases hent : (s (home x)).jobEntries x <;> simp [hd, hent]
    obtain ⟨z, hz⟩ := hinp m mem_cons_self
    rw [← hrel, between_answer hz, ← ite_self (c := z = y) v.x.rel]
    refine steps_of_message hz hyx fun hzy hhead => ?_
    subst hzy
    exact .drain (hphase.trans hp) hz hhead
  | @done e o _ _ hp he hq ho =>
    obtain rfl : d = true := by simp [hd, he]
    obtain rfl : v.yx = yx := hyx
    rw [he, map_some] at hrel
    exact (Acts.gone (.inr ⟨hphase.trans hp, rfl, hq⟩) hrel (between_farewell ho)).steps
  | @tornDown e o b _ hp he _ ho =>
    obtain rfl : d = true := by simp [hd, he]
    obtain rfl : v.yx = yx := hyx
    rw [he, map_some] at hrel
    exact (Acts.gone (.inl (hphase.trans hp)) hrel (between_farewell ho)).steps

/-- What happens to the fork `x`, seen from `y`. -/
private theorem acts_of_forkStep (hw : (s (home x)).Wf home (home x))
    (h : (s (home x)).ForkStep a x inp e' out events p)
    (hinp : ∀ m ∈ inp, ∃ z, m.route = some (z, x)) (hx : v.x = Sys.half home s x y)
    (hxy' : v.xy = s.flight home x y) (hyx' : v.yx = s.flight home y x)
    (hyx : v.yx = between y x inp ++ yx) (hq : v.y.Next q)
    (hd : d = (v.x.ended || ((s (home x)).jobEntries x).isSome && e'.isNone)) :
    PairSteps home s (.task (home x) a) x y v
      ⟨⟨p, e'.map fun e => e.rel y, d⟩, { v.y with phase := q }, v.xy ++ between x y out, yx⟩ := by
  have hphase : v.x.phase = (s (home x)).phase := congrArg Half.phase hx
  by_cases hcreate : (s (home x)).phase = .absent
  · -- the container starts, the main fork is born and then links to its peers
    have hrel : v.x.rel = none := by
      rw [hx, Sys.half, hw.absent hcreate]
      rfl
    cases h with
    | @create linkTo order _ ha hp ho hp' =>
      obtain rfl : v.yx = yx := hyx
      have hend : v.x.ended = false := by
        rw [hx, Sys.half, hw.absent hcreate]
        rfl
      obtain rfl : d = v.x.ended := by simp [hd]
      have hstart : PairSteps home s (.task (home x) a) x y v
          ⟨⟨.running, none, v.x.ended⟩, { v.y with phase := q }, v.xy, v.yx⟩ := by
        rw [← hrel]
        exact (Acts.phase (.inr ⟨by rw [hphase, hp]; trivial, fun _ => hrel⟩) hq).steps
      have ha' : ∃ l o, (Action.task (home x) a : Action ι) = .task (home x) (.create x l o) :=
        ⟨linkTo, order, congrArg _ ha⟩
      have hborn := hstart.trans (Acts.born
        (v := ⟨⟨.running, none, v.x.ended⟩, { v.y with phase := q }, v.xy, v.yx⟩) rfl rfl hxy'
        (congrArg Half.ended hx) (.inr ⟨linkTo, order, congrArg _ ha, hend⟩)).steps
      have hconnect := between_map_of_nodup (x := x) (y := y)
        (g := fun peer => .link (.connect x peer)) (fun _ => rfl) ho.1
      have hlinkTo : (({ linkedTo := linkTo } : JobEntry).rel y) =
          { linked := decide (y ∈ linkTo) } := rfl
      rw [hp', hconnect, map_some, hlinkTo]
      by_cases hy : y ∈ linkTo
      · rw [if_pos (ho.mem_iff.mpr hy), decide_eq_true hy]
        exact hborn.trans (Acts.link
          (v := ⟨⟨.running, some {}, v.x.ended⟩, { v.y with phase := q }, v.xy, v.yx⟩) (r := {})
          rfl rfl rfl hyx' (.inr ha')).steps
      · rw [if_neg (mt ho.mem_iff.mp hy), decide_eq_false hy, append_nil]
        exact hborn
    | forkAdded _ hp | refuse hp | recv _ _ hp | link _ hp | unlink _ hp | watch hp | unwatch hp
    | done _ hp | drain hp | tornDown hp => exact nomatch hcreate.symm.trans hp
  · refine (acts_of_forkStep' h hcreate hinp hx hxy' hyx' hyx hd).phase ?_ hq
    rcases h.phase_next with hp | hp
    · exact .inl (hp.trans hphase.symm)
    · refine .inr ⟨hphase ▸ hp, fun hrun => ?_⟩
      rw [hrun] at hp
      exact absurd (Phase.eq_absent_of_next hp) hcreate

end ForkStep

/-! ### The messages of a container under a change of one fork -/

section Focus

open Container

variable {k k' : Container} {f : Address} {inp out : List SysMsg} {e' : Option JobEntry}
  {events : List Event} {a : TaskAction} {p : Phase}

section Focused

variable (h : Focus f k k' inp e' out events)

include h

/-- The queue of another fork stays. -/
private theorem Focus.queue_of_ne (hy : y ≠ f) :
    between x y k'.rxSystem = between x y k.rxSystem := by
  rw [← between_routed k, h.queue, between_append, between_routed, between_eq_nil (l := inp),
    nil_append]
  intro m hm hroute
  obtain ⟨z, hz⟩ := h.inpRoute m hm
  rw [hz] at hroute
  cases hroute
  exact hy rfl

private theorem Focus.queue_self :
    between x f k.rxSystem = between x f inp ++ between x f k'.rxSystem := by
  rw [← between_routed k, h.queue, between_append, between_routed]

/-- The outbox of another fork stays. -/
private theorem Focus.outbox_of_ne (hx : x ≠ f) : between x y k'.outbox = between x y k.outbox := by
  rw [h.ready, h.outbox, between_nil, between_eq_nil]
  intro m hm hroute
  obtain ⟨z, hz⟩ := h.outRoute m hm
  rw [hz] at hroute
  cases hroute
  exact hx rfl

private theorem Focus.ended_of_ne (hstep : k.ForkStep a f inp e' out events p) (hx : x ≠ f) :
    k'.endedForks x = k.endedForks x := by
  rw [h.ended hstep, update_of_ne hx]

private theorem Focus.entry_of_ne (hx : x ≠ f) : k'.jobEntries x = k.jobEntries x := by
  rw [h.entries, update_of_ne hx]

end Focused

end Focus

/-! ### The steps of the system -/

namespace Sys

theorem route_of_mem_flight {m : SysMsg} (h : m ∈ flight home s x y) : m.route = some (x, y) := by
  rcases mem_append.mp h with h | h
  · exact (mem_between.mp h).2
  · exact (mem_between.mp h).2

variable [DecidableEq ι] {c : ι} {k' : Container}

private theorem half_update_of_ne (hx : home x ≠ c) :
    half home (update s c k') x y = half home s x y := by
  simp only [half, update_of_ne hx]

/-- The phase of one side goes on. -/
private theorem phase_update (hw : Wf home s)
    (hp : k'.phase = (s c).phase ∨ (s c).phase.Next k'.phase) :
    (half home s x y).Next (half home (update s c k') x y).phase := by
  by_cases hx : home x = c
  · subst hx
    simp only [half, update_self]
    refine hp.imp_right fun hp => ⟨hp, fun hrun => ?_⟩
    rw [hrun] at hp
    rw [(hw _).absent (Phase.eq_absent_of_next hp)]
    rfl
  · rw [half_update_of_ne hx]
    exact .inl rfl

/-- The messages between two forks when the queue and the outbox of one container keep theirs. -/
private theorem flight_update (hq : between x y k'.rxSystem = between x y (s c).rxSystem)
    (ho : between x y k'.outbox = between x y (s c).outbox) :
    flight home (update s c k') x y = flight home s x y := by
  unfold flight
  congr 1
  · by_cases hy : home y = c
    · subst hy
      rw [update_self, hq]
    · rw [update_of_ne hy]
  · by_cases hx : home x = c
    · subst hx
      rw [update_self, ho]
    · rw [update_of_ne hx]

/-- A fork whose entry and end stay as they are. -/
private theorem half_update (h : k'.jobEntries x = (s c).jobEntries x)
    (hend : k'.endedForks x = (s c).endedForks x) :
    half home (update s c k') x y =
      { half home s x y with phase := (half home (update s c k') x y).phase } := by
  by_cases hx : home x = c
  · subst hx
    simp only [half, update_self, h, hend]
  · rw [half_update_of_ne hx]

/-- A step that leaves both forks and the messages between them alone. -/
private theorem view_frame {a : Action ι} (hw : Wf home s)
    (hp : k'.phase = (s c).phase ∨ (s c).phase.Next k'.phase)
    (hx : k'.jobEntries x = (s c).jobEntries x) (hy : k'.jobEntries y = (s c).jobEntries y)
    (hx' : k'.endedForks x = (s c).endedForks x) (hy' : k'.endedForks y = (s c).endedForks y)
    (hxy : flight home (update s c k') x y = flight home s x y)
    (hyx : flight home (update s c k') y x = flight home s y x) :
    PairSteps home s a x y (view home s x y) (view home (update s c k') x y) := by
  have hview : view home (update s c k') x y =
      { view home s x y with
        x := { half home s x y with phase := (half home (update s c k') x y).phase }
        y := { half home s y x with
          phase := (half home (update s c k') y x).phase } } := by
    rw [← half_update hx hx', ← half_update hy hy']
    simp only [view, hxy, hyx]
  rw [hview]
  exact (Acts.phase (phase_update hw hp) (phase_update hw hp)).steps

/-- The container of `x` changes this fork. -/
private theorem view_focus {a : TaskAction} {inp out : List SysMsg} {e' : Option JobEntry}
    {events : List Event} (hw : Wf home s) (hxy : x ≠ y)
    (hfocus : Container.Focus x (s (home x)) k' inp e' out events)
    (hstep : (s (home x)).ForkStep a x inp e' out events k'.phase) :
    PairSteps home s (.task (home x) a) x y (view home s x y)
      (view home (update s (home x) k') x y) := by
  have hyx : flight home s y x =
      between y x inp ++ flight home (update s (home x) k') y x := by
    have hout : between y x (update s (home x) k' (home y)).outbox =
        between y x (s (home y)).outbox := by
      by_cases hy : home y = home x
      · rw [hy, update_self]
        exact Focus.outbox_of_ne hfocus hxy.symm
      · rw [update_of_ne hy]
    rw [flight, flight, hout, update_self, Focus.queue_self hfocus, append_assoc]
  have hflight : flight home (update s (home x) k') x y =
      flight home s x y ++ between x y out := by
    have hq : between x y (update s (home x) k' (home y)).rxSystem =
        between x y (s (home y)).rxSystem := by
      by_cases hy : home y = home x
      · rw [hy, update_self]
        exact Focus.queue_of_ne hfocus hxy.symm
      · rw [update_of_ne hy]
    rw [flight, flight, hq, update_self, hfocus.outbox, hfocus.ready, between_nil, append_nil]
  have hview : view home (update s (home x) k') x y =
      ⟨⟨k'.phase, e'.map fun e => e.rel y, k'.endedForks x⟩,
        { half home s y x with phase := (half home (update s (home x) k') y x).phase },
        flight home s x y ++ between x y out,
        flight home (update s (home x) k') y x⟩ := by
    rw [← half_update (Focus.entry_of_ne hfocus hxy.symm) (Focus.ended_of_ne hfocus hstep hxy.symm),
      ← hflight]
    simp only [view, half, update_self, hfocus.entries]
  rw [hview]
  refine acts_of_forkStep (hw _) hstep hfocus.inpRoute rfl rfl rfl hyx
    (phase_update hw hstep.phase_next) ?_
  rw [hfocus.ended hstep, update_self]
  rfl

/-- An action of a container's task, seen from two forks. -/
private theorem view_task {a : TaskAction} (hw : Wf home s) (hxy : x ≠ y)
    (h : (s c).act home c a = some k') :
    PairSteps home s (.task c a) x y (view home s x y)
      (view home (update s c k') x y) := by
  rcases Container.act_spec (hw c) h with hi | ⟨f, inp, e', out, events, rfl, hfocus, hstep⟩
  · have hq : ∀ x y, between x y k'.rxSystem = between x y (s c).rxSystem := fun x y => by
      rw [← between_routed, hi.queue, between_routed]
    have ho : ∀ x y, between x y k'.outbox = between x y (s c).outbox := fun x y => by
      rw [hi.outbox]
    exact view_frame hw (hi.phase.imp_right And.left) (congrFun hi.entries x)
      (congrFun hi.entries y) (congrFun hi.ended x) (congrFun hi.ended y)
      (flight_update (hq x y) (ho x y)) (flight_update (hq y x) (ho y x))
  · by_cases hx : x = f
    · subst hx
      exact view_focus hw hxy hfocus hstep
    by_cases hy : y = f
    · subst hy
      exact (view_focus hw hxy.symm hfocus hstep).swap
    · exact view_frame hw hstep.phase_next (Focus.entry_of_ne hfocus hx)
        (Focus.entry_of_ne hfocus hy) (Focus.ended_of_ne hfocus hstep hx)
        (Focus.ended_of_ne hfocus hstep hy)
        (flight_update (Focus.queue_of_ne hfocus hy) (Focus.outbox_of_ne hfocus hx))
        (flight_update (Focus.queue_of_ne hfocus hx) (Focus.outbox_of_ne hfocus hy))

/-! ### Sending -/

variable {d : ι} {m m' : SysMsg} {rest : List SysMsg} {f g : Address}

private theorem half_enqueue : half home (s.enqueue d m) x y = half home s x y := by
  by_cases hx : home x = d
  · subst hx
    simp only [half, enqueue, update_self, Container.enqueue, Container.endedForks]
  · exact half_update_of_ne hx

private theorem half_popOutbox : half home (s.popOutbox c) x y = half home s x y := by
  by_cases hx : home x = c
  · subst hx
    simp only [half, popOutbox, update_self, Container.endedForks]
  · exact half_update_of_ne hx

private theorem outbox_enqueue (e : ι) : ((s.enqueue d m) e).outbox = (s e).outbox := by
  by_cases he : e = d
  · subst he
    simp only [enqueue, update_self, Container.enqueue]
  · simp only [enqueue, update_of_ne he]

private theorem rxSystem_popOutbox (e : ι) : ((s.popOutbox c) e).rxSystem = (s e).rxSystem := by
  by_cases he : e = c
  · subst he
    simp only [popOutbox, update_self]
  · simp only [popOutbox, update_of_ne he]

/-- The queue of the receiver after `m` is appended to the queue of `d`. -/
private theorem between_enqueue (hm : m.route = some (x, y) → home y = d) :
    between x y ((s.enqueue d m) (home y)).rxSystem =
      between x y (s (home y)).rxSystem ++ between x y [m] := by
  by_cases hy : home y = d
  · subst hy
    simp only [enqueue, update_self, Container.enqueue, between_append]
  · simp only [enqueue, update_of_ne hy]
    rw [between_cons_of_ne (fun h => hy (hm h)), between_nil, append_nil]

/-- The outbox of the sender before `m` is taken out of the outbox of `c`. -/
private theorem between_popOutbox (hout : (s c).outbox = m :: rest)
    (hm : m.route = some (x, y) → home x = c) :
    between x y (s (home x)).outbox =
      between x y [m] ++ between x y ((s.popOutbox c) (home x)).outbox := by
  by_cases hx : home x = c
  · subst hx
    simp only [popOutbox, update_self, hout, tail_cons]
    rw [← between_append, singleton_append]
  · simp only [popOutbox, update_of_ne hx]
    rw [between_cons_of_ne (fun h => hx (hm h)), between_nil, nil_append]

/-- A delivery leaves it in flight. -/
private theorem flight_deliver (hout : (s c).outbox = m :: rest)
    (hx : m.route = some (x, y) → home x = c) (hy : m.route = some (x, y) → home y = d) :
    flight home ((s.popOutbox c).enqueue d m) x y = flight home s x y := by
  rw [flight, flight, between_enqueue hy, outbox_enqueue, rxSystem_popOutbox,
    between_popOutbox hout hx, append_assoc]

/-- A delivery leaves the view as it is. -/
private theorem view_deliver (hw : Wf home s) (hout : (s c).outbox = m :: rest)
    (hm : m.route = some (f, g)) :
    view home ((s.popOutbox c).enqueue (home g) m) x y = view home s x y := by
  obtain ⟨f', g', hroute, hhome⟩ := (hw c).outboxHome m (by simp [hout])
  rw [hm] at hroute
  cases hroute
  have hflight : ∀ x y, flight home ((s.popOutbox c).enqueue (home g) m) x y =
      flight home s x y := fun x y => by
    refine flight_deliver hout (fun h => ?_) (fun h => ?_)
    all_goals
      rw [hm] at h
      cases h
      first | exact hhome | rfl
  simp only [view, hflight, half_enqueue, half_popOutbox]

private theorem half_sendFailed : half home (s.sendFailed c m) x y = half home s x y := by
  cases hm : m.answer .linkDown with
  | none => simp only [sendFailed, hm]
  | some m' =>
    simp only [sendFailed, hm]
    exact half_enqueue

private theorem outbox_sendFailed (e : ι) : ((s.sendFailed c m) e).outbox = (s e).outbox := by
  cases hm : m.answer .linkDown with
  | none => simp only [sendFailed, hm]
  | some m' =>
    simp only [sendFailed, hm]
    exact outbox_enqueue e

/-- A failed send is answered. -/
private theorem between_sendFailed (hm : m.route = some (f, g)) (hf : home f = c) :
    between x y ((s.sendFailed c m) (home y)).rxSystem =
      between x y (s (home y)).rxSystem ++ between x y (m.answer .linkDown).toList := by
  cases hm' : m.answer .linkDown with
  | none => simp only [sendFailed, hm', toList_none, between_nil, append_nil]
  | some m' =>
    simp only [sendFailed, hm', toList_some]
    refine between_enqueue fun h => ?_
    obtain ⟨f', g', h₁, h₂⟩ := SysMsg.route_of_answer hm'
    rw [hm] at h₁
    cases h₁
    rw [h] at h₂
    cases h₂
    exact hf

/-- The messages between two forks when container `c` cannot send `m`. -/
private theorem flight_lose (hm : m.route = some (f, g)) (hf : home f = c) :
    flight home ((s.popOutbox c).sendFailed c m) x y =
      between x y (s (home y)).rxSystem ++ (between x y (m.answer .linkDown).toList ++
        between x y ((s.popOutbox c) (home x)).outbox) := by
  rw [flight, between_sendFailed hm hf, outbox_sendFailed, rxSystem_popOutbox, append_assoc]

/-- The first message of the outbox. -/
private theorem flight_popOutbox (hout : (s c).outbox = m :: rest) (hm : m.route = some (f, g))
    (hf : home f = c) :
    flight home s x y =
      between x y (s (home y)).rxSystem ++ (between x y [m] ++
        between x y ((s.popOutbox c) (home x)).outbox) := by
  rw [flight, between_popOutbox hout fun h => ?_]
  rw [hm] at h
  cases h
  exact hf

private theorem mem_outbox_of_popOutbox {e : ι} (h : m ∈ ((s.popOutbox c) e).outbox) :
    m ∈ (s e).outbox := by
  by_cases he : e = c
  · subst he
    simp only [popOutbox, update_self] at h
    exact mem_of_mem_tail h
  · simpa only [popOutbox, update_of_ne he] using h

omit [DecidableEq ι] in
/-- When a message is not accepted. -/
private theorem phase_of_not_accepts {k : Container} (h : k.accepts stale = false) :
    k.phase ≠ .running ∧ ∀ b, k.phase ≠ .stopping b := by
  constructor
  · intro hp
    rw [Container.accepts, hp] at h
    contradiction
  · intro b hp
    rw [Container.accepts, hp] at h
    contradiction

/-- A message from `x` to `y` that cannot be sent. -/
private theorem acts_lose (hw : Wf home s) (hxy : x ≠ y) (ha : a = .flush (home x) stale)
    (hout : (s (home x)).outbox = m :: rest) (hm : m.route = some (x, y))
    (hacc : (s (home y)).accepts stale = false) :
    PairSteps home s a x y (view home s x y)
      (view home ((s.popOutbox (home x)).sendFailed (home x) m) x y) := by
  have hne : m.route ≠ some (y, x) := fun h => by
    rw [hm] at h
    cases h
    exact hxy rfl
  have hxy' : flight home s x y = between x y (s (home y)).rxSystem ++
      m :: between x y ((s.popOutbox (home x)) (home x)).outbox := by
    rw [flight_popOutbox hout hm rfl, between_cons_of_route hm]
    rfl
  have hyx' : flight home s y x = between y x (s (home x)).rxSystem ++
      between y x ((s.popOutbox (home x)) (home y)).outbox := by
    rw [flight_popOutbox hout hm rfl, between_cons_of_ne hne, between_nil, nil_append]
  have hview : view home ((s.popOutbox (home x)).sendFailed (home x) m) x y =
      { view home s x y with
        xy := between x y (s (home y)).rxSystem ++
          between x y ((s.popOutbox (home x)) (home x)).outbox
        yx := between y x (s (home x)).rxSystem ++ ((m.answer .linkDown).toList ++
          between y x ((s.popOutbox (home x)) (home y)).outbox) } := by
    simp only [view, half_sendFailed, half_popOutbox, flight_lose hm rfl, between_answer hm,
      between_answer_of_ne hm fun h => absurd h hxy, if_true, nil_append]
  rw [hview]
  refine (Acts.lost hm hxy' hyx' (phase_of_not_accepts hacc) (fun hp => ?_) ?_
    ⟨stale, ha, by rw [hout, List.head?_cons], hacc⟩).steps
  · simp only [view, half, (hw _).absent hp, Container.absent, map_none, between_nil, and_self]
  intro m' hm' hreq
  obtain ⟨hm', -⟩ := mem_between.mp hm'
  exact (phase_of_not_accepts hacc).1 ((hw _).request m' (mem_outbox_of_popOutbox hm') hreq)

/-- A message that is not accepted, for the pair. -/
private theorem view_lose (hw : Wf home s) (hxy : x ≠ y) (ha : a = .flush c stale)
    (hout : (s c).outbox = m :: rest) (hm : m.route = some (f, g))
    (hacc : (s (home g)).accepts stale = false) :
    PairSteps home s a x y (view home s x y)
      (view home ((s.popOutbox c).sendFailed c m) x y) := by
  obtain ⟨f', g', hroute, rfl⟩ := (hw c).outboxHome m (by simp [hout])
  rw [hm] at hroute
  cases hroute
  by_cases hfg : f = x ∧ g = y
  · obtain ⟨rfl, rfl⟩ := hfg
    exact acts_lose hw hxy ha hout hm hacc
  by_cases hgf : f = y ∧ g = x
  · obtain ⟨rfl, rfl⟩ := hgf
    exact (acts_lose hw hxy.symm ha hout hm hacc).swap
  · have hne : ∀ x y, ¬ (f = x ∧ g = y) → between x y [m] = [] := fun x y h => by
      refine between_cons_of_ne fun hroute => h ?_
      rw [hm] at hroute
      cases hroute
      exact ⟨rfl, rfl⟩
    have hview : view home ((s.popOutbox (home f)).sendFailed (home f) m) x y =
        view home s x y := by
      simp only [view, half_sendFailed, half_popOutbox, flight_lose hm rfl,
        flight_popOutbox (x := x) hout hm rfl, flight_popOutbox (x := y) hout hm rfl,
        hne x y hfg, hne y x hgf,
        between_answer_of_ne (x := x) (y := y) hm fun h₁ h₂ => hgf ⟨h₂.symm, h₁.symm⟩,
        between_answer_of_ne (x := y) (y := x) hm fun h₁ h₂ => hfg ⟨h₂.symm, h₁.symm⟩]
    rw [hview]

private theorem flight_enqueue (hm : m.route = some (x, y) → home y = d) :
    flight home (s.enqueue d m) x y = between x y (s (home y)).rxSystem ++
      (between x y [m] ++ between x y (s (home x)).outbox) := by
  rw [flight, between_enqueue hm, outbox_enqueue, append_assoc]

/-- A fork asks another one to terminate. -/
private theorem acts_exit (hxy : x ≠ y) (ha : a = .exit x y stale) :
    PairSteps home s a x y (view home s x y)
      (view home (s.enqueue (home y) (.link (.exit x y .terminate))) x y) := by
  have hyx : flight home (s.enqueue (home y) (.link (.exit x y .terminate))) y x =
      flight home s y x := by
    have hne : (SysMsg.link (.exit x y .terminate)).route ≠ some (y, x) := fun h => by
      cases h
      exact hxy rfl
    rw [flight_enqueue (fun h => absurd h hne), between_cons_of_ne hne]
    rfl
  have hview : view home (s.enqueue (home y) (.link (.exit x y .terminate))) x y =
      { view home s x y with
        xy := between x y (s (home y)).rxSystem ++
          .link (.exit x y .terminate) :: between x y (s (home x)).outbox } := by
    simp only [view, half_enqueue, hyx]
    rw [flight_enqueue (fun _ => rfl), between_cons_of_route rfl]
    rfl
  rw [hview]
  exact (Acts.terminate rfl ⟨stale, ha⟩).steps

/-- **A step of the system, seen from two forks.** -/
theorem view_step {s' : Sys ι} (hw : Wf home s) (hxy : x ≠ y) (h : s.step home a = some s') :
    PairSteps home s a x y (view home s x y) (view home s' x y) := by
  -- a message that is not between the two forks is not seen
  have hother : ∀ {d : ι} {m : SysMsg}, m.route ≠ some (x, y) → m.route ≠ some (y, x) →
      view home (s.enqueue d m) x y = view home s x y := fun h₁ h₂ => by
    simp only [view, half_enqueue, flight_enqueue (fun h => absurd h h₁),
      flight_enqueue (fun h => absurd h h₂), between_cons_of_ne h₁, between_cons_of_ne h₂,
      between_nil, nil_append]
    rfl
  cases moves_of_step h with
  | task hk => exact view_task hw hxy hk
  | deliver hout hm hacc => rw [view_deliver hw hout hm]
  | lose hout hm hacc => exact view_lose hw hxy rfl hout hm hacc
  | kill hacc =>
    rw [hother (m := .kill) (some_ne_none _).symm (some_ne_none _).symm]
  | @exit f g stale hacc =>
    by_cases hfg : f = x ∧ g = y
    · obtain ⟨rfl, rfl⟩ := hfg
      exact acts_exit hxy rfl
    by_cases hgf : f = y ∧ g = x
    · obtain ⟨rfl, rfl⟩ := hgf
      exact (acts_exit hxy.symm rfl).swap
    · rw [hother (m := .link (.exit f g .terminate)) (fun h => ?_) (fun h => ?_)]
      · cases h
        exact hfg ⟨rfl, rfl⟩
      · cases h
        exact hgf ⟨rfl, rfl⟩

end Sys

/-- A property of the view that every change keeps is kept by a step of the system. -/
theorem PairSteps.keeps {P : View → Prop} (h : PairSteps home s a x y v v') (hv : P v)
    (hx : ∀ {v v'}, Acts home s a x y v v' → P v → P v')
    (hy : ∀ {v v'}, Acts home s a y x v v' → P v.swap → P v'.swap) : P v' := by
  induction h with
  | refl => exact hv
  | tail _ hstep ih =>
    rcases hstep with h | h
    · exact hx h ih
    · exact hy h ih

end Mm1
