import Mm1.Common.Basic
import Mm1.Lib.History

/-!
# The oneshot timer

`timer_run` of `mm1-timer` is a server that keeps the messages an actor has scheduled. They are in a
slot map, and the times at which they are due are in an ordered set; when the first of them is due,
all that are due are sent to the actor. The slot map, the clock and the sends are answered from
outside (`Answers`).

* `popDue_spec`, `fire_spec`: what is due is sent, the earliest first, until there is no more or a
  send is refused;
* `handle_spec`: the server goes on after an event if, and only if, its sends are accepted;
* `exact_of_runs`: every message is pending, or was sent once, or was canceled once;
* `unharmed_iff_accepts`: the first send that is refused ends the server, with all that is pending.
-/

namespace Mm1

open Option List Transition Roster

deriving instance DecidableEq for SendErrorKind

namespace Timer

open OrderedMap

/-- `Entry` -/
structure Entry (M : Type) where
  at' : Instant
  message : M
  deriving DecidableEq

/-- `TimerState` -/
structure TimerState (M : Type) where
  entries : Roster OneshotKey (Entry M)
  ordered : List ((Instant × OneshotKey) × Unit)

/-- What must not happen. -/
inductive TimerPanic where
  /-- the slot map is full -/
  | full
  /-- `expect("just checked")` -/
  | justChecked
  /-- `expect("should exist")` -/
  | shouldExist
  deriving DecidableEq

/-- How `timer_run` ends. Nobody looks at it: `Fork::run` drops what its task returns. -/
inductive TimerEnd where
  | panic (reason : TimerPanic)
  | send (reason : ErrorOf SendErrorKind)
  | recv (reason : ErrorOf RecvErrorKind)

/-- `Event` -/
inductive Event (M : Type) where
  | time (now : Instant)
  | schedule (header : RequestHeader) (at' : Instant) (message : M)
  | cancel (header : RequestHeader) (key : OneshotKey)
  | recvError (reason : ErrorOf RecvErrorKind)

/-- What the server sends. -/
inductive Sent (M : Type) where
  /-- the reply `ScheduledOneshot` -/
  | scheduled (header : RequestHeader) (key : OneshotKey)
  /-- the reply `CanceledOneshot` -/
  | canceled (header : RequestHeader) (message : Option M)
  /-- the message of an entry, to the receiver -/
  | due (receiver : Address) (key : OneshotKey) (entry : Entry M)
  deriving DecidableEq

/-- What is answered from outside while an event is handled: the key that the slot map chooses, and
whether the reply is accepted and the message of an entry. -/
structure Answers where
  slots : Slots OneshotKey
  reply : Except (ErrorOf SendErrorKind) Unit
  send : OneshotKey → Except (ErrorOf SendErrorKind) Unit

variable {M : Type}

namespace TimerState

/-- `TimerState::default` -/
def empty : TimerState M := ⟨.empty, []⟩

/-- The order of `ordered`. -/
def cmp : Instant × OneshotKey → Instant × OneshotKey → Ordering := lexCmp compare KeyData.cmp

/-- The time that the server waits for. -/
def wakeAt (s : TimerState M) : Option Instant := s.ordered.head?.map fun x => x.1.1

/-- A turn of the loop: take off the first entry, if it is due. -/
def popDue (s : TimerState M) (now : Instant) :
    Except TimerPanic (Option ((OneshotKey × Entry M) × TimerState M)) :=
  match s.wakeAt with
  | none => .ok none
  | some at' =>
    if now < at' then .ok none
    else
      match s.ordered with
      | [] => .error .justChecked
      | ((_, key), _) :: ordered =>
        match s.entries.lookup key with
        | none => .error .shouldExist
        | some entry => .ok (some ((key, entry), ⟨s.entries.erase key, ordered⟩))

/-- The loop. A turn takes off an entry, so that there are at most as many turns as entries, and one
more to see that it is over. -/
def fire (receiver : Address) (ans : Answers) (now : Instant) :
    ℕ → TimerState M → List (Sent M) × Except TimerEnd (TimerState M)
  | 0, _ => ([], .error (.panic .justChecked))
  | turns + 1, s =>
    match s.popDue now with
    | .error reason => ([], .error (.panic reason))
    | .ok none => ([], .ok s)
    | .ok (some ((key, entry), s)) =>
      match ans.send key with
      | .error reason => ([], .error (.send reason))
      | .ok () =>
        let (sent, result) := fire receiver ans now turns s
        (.due receiver key entry :: sent, result)

/-- `ctx.reply(header, ..).await?` -/
def reply (ans : Answers) (reply : Sent M) (s : TimerState M) :
    List (Sent M) × Except TimerEnd (TimerState M) :=
  match ans.reply with
  | .ok () => ([reply], .ok s)
  | .error reason => ([], .error (.send reason))

/-- Handle an event. -/
def handle (receiver : Address) (ans : Answers) (s : TimerState M) :
    Event M → List (Sent M) × Except TimerEnd (TimerState M)
  | .recvError reason => ([], .error (.recv reason))
  | .schedule header at' message =>
    match s.entries.insert? ans.slots ⟨at', message⟩ with
    | none => ([], .error (.panic .full))
    | some (key, entries) =>
      reply ans (.scheduled header key) ⟨entries, (add cmp (at', key) s.ordered).1⟩
  | .cancel header key =>
    match s.entries.lookup key with
    | some entry =>
      reply ans (.canceled header (some entry.message))
        ⟨s.entries.erase key, (discard cmp (entry.at', key) s.ordered).1⟩
    | none => reply ans (.canceled header none) s
  | .time now => fire receiver ans now (s.ordered.length + 1) s

end TimerState

/-- The server, or how it has ended. -/
abbrev Server (M : Type) := Except TimerEnd (TimerState M)

/-- Handle an event and go on. When the server has ended, nobody receives what is sent to it. -/
def call (receiver : Address) (s : Server M) (l : Answers × Event M) :
    Option (Server M × List (Sent M)) :=
  match s with
  | .error reason => some (.error reason, [])
  | .ok s => some (s.handle receiver l.1 l.2).swap

/-! ### The invariant -/

namespace TimerState

variable {s : TimerState M} {k : OneshotKey} {e : Entry M} {now : Instant}

/-- `ordered` has the entries of the slot map and no others. -/
structure Inv (s : TimerState M) : Prop where
  sorted : Sorted cmp s.ordered
  ordered : ∀ x, (x, ()) ∈ s.ordered ↔ ∃ k e, s.entries.lookup k = some e ∧ x = (e.at', k)

private theorem orderOn_cmp : OrderOn cmp Set.univ := by
  rw [← Set.univ_prod_univ]
  exact orderOn_compare.lex KeyData.orderOn_cmp

private theorem inv_empty : (empty : TimerState M).Inv where
  sorted := List.Pairwise.nil
  ordered := by simp [empty]

/-- An entry leaves both tables. -/
private theorem Inv.remove {ordered : List ((Instant × OneshotKey) × Unit)} (h : s.Inv)
    (hk : s.entries.lookup k = some e) (hsorted : Sorted cmp ordered)
    (hmem : ∀ x, (x, ()) ∈ ordered ↔ (x, ()) ∈ s.ordered ∧ x ≠ (e.at', k)) :
    Inv ⟨s.entries.erase k, ordered⟩ where
  sorted := hsorted
  ordered x := by
    rw [hmem, h.ordered]
    constructor
    · rintro ⟨⟨k', e', hk', rfl⟩, hne⟩
      have hkk : k' ≠ k := by
        rintro rfl
        obtain rfl := some.inj (hk.symm.trans hk')
        exact hne rfl
      exact ⟨k', e', lookup_erase_eq_some.mpr ⟨hkk, hk'⟩, rfl⟩
    · rintro ⟨k', e', hk', rfl⟩
      obtain ⟨hkk, hk'⟩ := lookup_erase_eq_some.mp hk'
      exact ⟨⟨k', e', hk', rfl⟩, fun heq => hkk (Prod.mk.inj heq).2⟩

/-- A new entry is in both tables. -/
private theorem Inv.schedule (h : s.Inv) (hk : s.entries.lookup k = none) :
    Inv ⟨s.entries.push k e hk, (add cmp (e.at', k) s.ordered).1⟩ := by
  have hnew : ((e.at', k), ()) ∉ s.ordered := by
    rw [h.ordered]
    rintro ⟨k', e', hk', heq⟩
    obtain ⟨-, rfl⟩ := Prod.mk.inj heq
    rw [hk] at hk'
    contradiction
  obtain ⟨ordered, hadd, hsorted, hmem⟩ := add_spec orderOn_cmp h.sorted hnew
  rw [hadd]
  refine ⟨hsorted, fun x => ?_⟩
  rw [hmem, h.ordered]
  constructor
  · rintro (rfl | ⟨k', e', hk', rfl⟩)
    · exact ⟨k, e, by rw [lookup_push, if_pos rfl], rfl⟩
    · have hkk : k' ≠ k := by
        rintro rfl
        rw [hk] at hk'
        contradiction
      exact ⟨k', e', by rw [lookup_push, if_neg hkk, hk'], rfl⟩
  · rintro ⟨k', e', hk', rfl⟩
    rw [lookup_push] at hk'
    split at hk'
    case isTrue hkk =>
      obtain rfl := some.inj hk'
      exact .inl (by rw [hkk])
    case isFalse => exact .inr ⟨k', e', hk', rfl⟩

/-- The server does not wait longer than for any of its entries. -/
private theorem Inv.wakeAt_le (h : s.Inv) (hk : s.entries.lookup k = some e) :
    ∃ first, s.wakeAt = some first ∧ first ≤ e.at' := by
  have hmem : ((e.at', k), ()) ∈ s.ordered := (h.ordered _).mpr ⟨k, e, hk, rfl⟩
  have hsorted := h.sorted
  rw [wakeAt]
  cases hord : s.ordered with
  | nil =>
    rw [hord] at hmem
    exact absurd hmem not_mem_nil
  | cons x rest =>
    rw [hord] at hmem hsorted
    refine ⟨x.1.1, rfl, ?_⟩
    rcases mem_cons.mp hmem with rfl | hrest
    · exact le_rfl
    · have hlt : cmp x.1 (e.at', k) = .lt := (pairwise_cons.mp hsorted).1 _ hrest
      exact Nat.compare_ne_gt.mp (fst_ne_gt_of_lt hlt)

/-- **A turn of the loop** never fails. It takes off the earliest entry, if that one is due. -/
theorem popDue_spec (h : s.Inv) (now : Instant) :
    (s.popDue now = .ok none ∧ ∀ k e, s.entries.lookup k = some e → now < e.at') ∨
      ∃ k e s', s.popDue now = .ok (some ((k, e), s')) ∧ s.entries.lookup k = some e ∧
        e.at' ≤ now ∧ (∀ k' e', s.entries.lookup k' = some e' → e.at' ≤ e'.at') ∧
        s'.Inv ∧ s'.entries = s.entries.erase k ∧ s.ordered.length = s'.ordered.length + 1 := by
  rw [popDue]
  cases hord : s.ordered with
  | nil =>
    left
    have hwake : s.wakeAt = none := by rw [wakeAt, hord]; rfl
    refine ⟨by rw [hwake], fun k e hk => ?_⟩
    obtain ⟨first, hfirst, -⟩ := h.wakeAt_le hk
    rw [hwake] at hfirst
    contradiction
  | cons x rest =>
    obtain ⟨⟨at', k⟩, u⟩ := x
    have hwake : s.wakeAt = some at' := by rw [wakeAt, hord]; rfl
    have hfirst : ∀ k' e', s.entries.lookup k' = some e' → at' ≤ e'.at' := by
      intro k' e' hk'
      obtain ⟨first, hsome, hle⟩ := h.wakeAt_le hk'
      rw [hwake] at hsome
      obtain rfl := some.inj hsome
      exact hle
    rw [hwake]
    dsimp only
    split
    case isTrue hlt => exact .inl ⟨rfl, fun k' e' hk' => lt_of_lt_of_le hlt (hfirst k' e' hk')⟩
    case isFalse hle =>
      right
      have hmem : ((at', k), ()) ∈ s.ordered := by rw [hord]; exact mem_cons_self
      obtain ⟨k', e, hk, heq⟩ := (h.ordered _).mp hmem
      obtain ⟨rfl, rfl⟩ := Prod.mk.inj heq
      have hsorted := h.sorted
      rw [hord] at hsorted
      obtain ⟨hbefore, hrest⟩ := pairwise_cons.mp hsorted
      have hself : cmp (e.at', k) (e.at', k) ≠ .lt := by
        rw [(orderOn_cmp.eq_iff trivial trivial).mpr rfl]
        decide
      rw [hk]
      refine ⟨k, e, _, rfl, hk, le_of_not_gt hle, hfirst, h.remove hk hrest fun y => ?_, rfl, rfl⟩
      rw [hord, mem_cons]
      constructor
      · refine fun hy => ⟨.inr hy, ?_⟩
        rintro rfl
        exact hself (hbefore _ hy)
      · rintro ⟨heq | hy, hne⟩
        · exact absurd (Prod.mk.inj heq).1 hne
        · exact hy

/-! ### The loop -/

/-- What the loop has taken off: the earliest entries, in their order. Each of them is due, and its
message is accepted. -/
structure Taken (ans : Answers) (now : Instant) (s : TimerState M)
    (due : List (OneshotKey × Entry M)) (s' : TimerState M) : Prop where
  inv : s'.Inv
  perm : s.entries.entries.Perm (due ++ s'.entries.entries)
  inOrder : due.Pairwise fun x y => x.2.at' ≤ y.2.at'
  due : ∀ x ∈ due, x.2.at' ≤ now ∧ ans.send x.1 = .ok ()

/-- The messages that the loop sends. -/
def sentDue (receiver : Address) (due : List (OneshotKey × Entry M)) : List (Sent M) :=
  due.map fun x => .due receiver x.1 x.2

/-- **The loop** never fails. It ends when nothing more is due, or with a send that is refused. -/
theorem fire_spec (receiver : Address) (ans : Answers) (now : Instant) {turns : ℕ} (h : s.Inv)
    (hturns : s.ordered.length < turns) :
    ∃ due s', Taken ans now s due s' ∧
      ((fire receiver ans now turns s = (sentDue receiver due, .ok s') ∧
          ∀ k e, s'.entries.lookup k = some e → now < e.at') ∨
        ∃ k e reason, s'.entries.lookup k = some e ∧ e.at' ≤ now ∧ ans.send k = .error reason ∧
          fire receiver ans now turns s = (sentDue receiver due, .error (.send reason))) := by
  -- each turn takes off one entry
  induction turns generalizing s with
  | zero => exact absurd hturns (Nat.not_lt_zero _)
  | succ turns ih =>
    rw [fire]
    have hnothing : Taken ans now s [] s :=
      ⟨h, .refl _, List.Pairwise.nil, fun x hx => absurd hx not_mem_nil⟩
    rcases popDue_spec h now with
      ⟨hpop, hlater⟩ | ⟨k, e, s₁, hpop, hk, hdue, hfirst, h₁, hentries, hlen⟩
    · rw [hpop]
      exact ⟨[], s, hnothing, .inl ⟨rfl, hlater⟩⟩
    · rw [hpop]
      dsimp only
      cases hsend : ans.send k with
      | error reason => exact ⟨[], s, hnothing, .inr ⟨k, e, reason, hk, hdue, hsend, rfl⟩⟩
      | ok u =>
        obtain ⟨due, s', htaken, hend⟩ := ih h₁ (by omega)
        have hperm : s.entries.entries.Perm ((k, e) :: s₁.entries.entries) := by
          rw [hentries]
          exact perm_erase hk
        have hcons : Taken ans now s ((k, e) :: due) s' := by
          refine ⟨htaken.inv, hperm.trans (htaken.perm.cons _), ?_, ?_⟩
          · refine pairwise_cons.mpr ⟨fun y hy => hfirst y.1 y.2 ?_, htaken.inOrder⟩
            have hy₁ : y ∈ s₁.entries.entries := htaken.perm.mem_iff.mpr (mem_append_left _ hy)
            exact lookup_eq_some_iff.mpr (hperm.mem_iff.mpr (mem_cons_of_mem _ hy₁))
          · exact forall_mem_cons.mpr ⟨⟨hdue, hsend⟩, htaken.due⟩
        refine ⟨(k, e) :: due, s', hcons, ?_⟩
        rcases hend with ⟨hfire, hlater⟩ | ⟨k', e', reason, hk', hdue', hrefused, hfire⟩
        · rw [hfire]
          exact .inl ⟨rfl, hlater⟩
        · rw [hfire]
          exact .inr ⟨k', e', reason, hk', hdue', hrefused, rfl⟩

/-! ### Events -/

/-- The messages of entries, with their keys. -/
def messages (entries : List (OneshotKey × Entry M)) : List (OneshotKey × M) :=
  entries.map fun x => (x.1, x.2.message)

private theorem messages_perm {all gone left : List (OneshotKey × Entry M)}
    (h : all.Perm (gone ++ left)) : (messages all).Perm (messages left ++ messages gone) := by
  refine (h.map _).trans ?_
  rw [map_append]
  exact perm_append_comm

/-- What an event has scheduled. -/
def scheduledBy (sent : List (Sent M)) : Event M → List (OneshotKey × Entry M)
  | .schedule _ at' message => sent.filterMap fun
    | .scheduled _ key => some (key, ⟨at', message⟩)
    | _ => none
  | _ => []

/-- The messages that an event has returned to the one who canceled them. -/
def canceledBy (sent : List (Sent M)) : Event M → List (OneshotKey × M)
  | .cancel _ key => sent.filterMap fun
    | .canceled _ (some message) => some (key, message)
    | _ => none
  | _ => []

/-- The entries whose messages were sent. -/
def deliveredBy (sent : List (Sent M)) : List (OneshotKey × Entry M) :=
  sent.filterMap fun
    | .due _ key entry => some (key, entry)
    | _ => none

/-- The keys of the slot map. -/
def keys (s : TimerState M) : List OneshotKey := s.entries.entries.map Prod.fst

/-- Of what is known, some entries were sent in the order of their times, none of them early. -/
def InTime (receiver : Address) (known : List (OneshotKey × Entry M)) (now : Instant)
    (sent : List (Sent M)) : Prop :=
  ∃ due, sent = sentDue receiver due ∧ (due.Pairwise fun x y => x.2.at' ≤ y.2.at') ∧
    ∀ x ∈ due, x ∈ known ∧ x.2.at' ≤ now

private theorem InTime.mono {receiver : Address} {known known' : List (OneshotKey × Entry M)}
    {sent : List (Sent M)} (h : InTime receiver known now sent)
    (hsub : ∀ x ∈ known, x ∈ known') : InTime receiver known' now sent := by
  obtain ⟨due, hsent, hpair, hdue⟩ := h
  exact ⟨due, hsent, hpair, fun x hx => ⟨hsub x (hdue x hx).1, (hdue x hx).2⟩⟩

/-- What an event does to a server that goes on: an entry that comes has a new key, and one that
goes is sent or canceled. -/
structure Handles (receiver : Address) (ans : Answers) (s : TimerState M) (event : Event M)
    (sent : List (Sent M)) (s' : TimerState M) : Prop where
  inv : s'.Inv
  balance : (messages (scheduledBy sent event ++ s.entries.entries)).Perm
    (messages s'.entries.entries ++ (messages (deliveredBy sent) ++ canceledBy sent event))
  kept : ∀ x ∈ s'.entries.entries, x ∈ scheduledBy sent event ∨ x ∈ s.entries.entries
  new : scheduledBy sent event = [] ∨
    ∃ x, scheduledBy sent event = [x] ∧ ans.slots.next s.keys = some x.1
  timed : deliveredBy sent = [] ∨
    ∃ now, event = .time now ∧ InTime receiver s.entries.entries now sent

/-- All that is sent while an event is handled is accepted. -/
def Accepted (ans : Answers) (s : TimerState M) : Event M → Prop
  | .time now => ∀ x ∈ s.entries.entries, x.2.at' ≤ now → ans.send x.1 = .ok ()
  | .schedule _ _ _ => ans.reply = .ok ()
  | .cancel _ _ => ans.reply = .ok ()
  | .recvError _ => False

instance (ans : Answers) (s : TimerState M) : DecidablePred (s.Accepted ans)
  | .time _ => inferInstanceAs (Decidable (∀ _ ∈ _, _))
  | .schedule _ _ _ => inferInstanceAs (Decidable (_ = _))
  | .cancel _ _ => inferInstanceAs (Decidable (_ = _))
  | .recvError _ => inferInstanceAs (Decidable False)

private theorem reply_cases (ans : Answers) (answer : Sent M) (s : TimerState M) :
    (ans.reply = .ok () ∧ reply ans answer s = ([answer], .ok s)) ∨
      ∃ reason, ans.reply = .error reason ∧ reply ans answer s = ([], .error (.send reason)) := by
  rw [reply]
  cases ans.reply with
  | ok u => exact .inl ⟨rfl, rfl⟩
  | error reason => exact .inr ⟨reason, rfl, rfl⟩

/-- What `schedule` does. -/
private theorem handle_schedule (receiver : Address) (ans : Answers) (header : RequestHeader)
    (at' : Instant) (message : M) (h : s.Inv) :
    (ans.slots.next s.keys = none ∧
        s.handle receiver ans (.schedule header at' message) = ([], .error (.panic .full))) ∨
      ∃ k s', ans.slots.next s.keys = some k ∧ s'.Inv ∧
        s'.entries.entries = s.entries.entries ++ [(k, ⟨at', message⟩)] ∧
        s.handle receiver ans (.schedule header at' message) =
          reply ans (.scheduled header k) s' := by
  rw [handle]
  rcases s.entries.insert?_cases ans.slots ⟨at', message⟩ with
    ⟨hnext, hnone⟩ | ⟨k, hk, hnext, hsome⟩
  · rw [hnone]
    exact .inl ⟨hnext, rfl⟩
  · rw [hsome]
    exact .inr ⟨k, _, hnext, h.schedule hk, rfl, rfl⟩

/-- What `cancel` does. -/
private theorem handle_cancel (receiver : Address) (ans : Answers) (header : RequestHeader)
    (k : OneshotKey) (h : s.Inv) :
    ∃ s', s'.Inv ∧
      s.entries.entries.Perm
        (((s.entries.lookup k).map fun e => (k, e)).toList ++ s'.entries.entries) ∧
      s.handle receiver ans (.cancel header k) =
        reply ans (.canceled header ((s.entries.lookup k).map Entry.message)) s' := by
  rw [handle]
  cases hk : s.entries.lookup k with
  | none => exact ⟨s, h, .refl _, rfl⟩
  | some e =>
    have hmem : ((e.at', k), ()) ∈ s.ordered := (h.ordered _).mpr ⟨k, e, hk, rfl⟩
    obtain ⟨ordered, hdiscard, hsorted, hmem'⟩ := discard_spec orderOn_cmp h.sorted hmem
    dsimp only
    rw [hdiscard]
    exact ⟨_, h.remove hk hsorted hmem', perm_erase hk, rfl⟩

private theorem deliveredBy_sentDue (receiver : Address) (due : List (OneshotKey × Entry M)) :
    deliveredBy (sentDue receiver due) = due := by
  rw [deliveredBy, sentDue, filterMap_map]
  exact filterMap_some

/-- **An event.** The server goes on if all that it sends is accepted, and ends otherwise. A slot
map that is full ends it too. No other check fails. -/
theorem handle_spec (receiver : Address) (ans : Answers) (h : s.Inv) (event : Event M) :
    (∃ sent s', s.handle receiver ans event = (sent, .ok s') ∧ s.Accepted ans event ∧
        Handles receiver ans s event sent s') ∨
      (s.handle receiver ans event = ([], .error (.panic .full)) ∧ ans.slots.next s.keys = none) ∨
      (¬ s.Accepted ans event ∧ ∃ reason, (s.handle receiver ans event).2 = .error reason ∧
        ∀ p, reason ≠ .panic p) := by
  cases event with
  | recvError reason => exact .inr (.inr ⟨id, _, rfl, by simp⟩)
  | schedule header at' message =>
    rcases handle_schedule receiver ans header at' message h with
      ⟨hnext, hfull⟩ | ⟨k, s', hnext, h', hentries, hhandle⟩
    · rw [hfull]
      exact .inr (.inl ⟨rfl, hnext⟩)
    rw [hhandle]
    rcases reply_cases ans (.scheduled header k) s' with ⟨hok, hreply⟩ | ⟨reason, herr, hreply⟩
    · have hnew : scheduledBy [Sent.scheduled header k] (.schedule header at' message) =
          [(k, ⟨at', message⟩)] := rfl
      refine .inl ⟨_, _, hreply, hok, h', ?_, ?_, .inr ⟨_, hnew, hnext⟩, .inl rfl⟩
      · rw [hnew, hentries]
        refine List.Perm.trans (List.Perm.map _ perm_append_comm) ?_
        exact .of_eq (append_nil _).symm
      · intro x hx
        rw [hentries] at hx
        rcases mem_append.mp hx with hx | hx
        · exact .inr hx
        · exact .inl hx
    · rw [hreply]
      refine .inr (.inr ⟨?_, _, rfl, by simp⟩)
      rw [Accepted, herr]
      simp
  | cancel header k =>
    obtain ⟨s', h', hperm, hhandle⟩ := handle_cancel receiver ans header k h
    rw [hhandle]
    rcases reply_cases ans (.canceled header ((s.entries.lookup k).map Entry.message)) s' with
      ⟨hok, hreply⟩ | ⟨reason, herr, hreply⟩
    · refine .inl ⟨_, _, hreply, hok, h', ?_, fun x hx => ?_, .inl rfl, .inl rfl⟩
      · refine (messages_perm hperm).trans (List.Perm.append_left _ (.of_eq ?_))
        cases s.entries.lookup k with
        | none | some e => rfl
      · exact .inr (hperm.mem_iff.mpr (mem_append_right _ hx))
    · rw [hreply]
      refine .inr (.inr ⟨?_, _, rfl, by simp⟩)
      rw [Accepted, herr]
      simp
  | time now =>
    obtain ⟨due, s', htaken, hend⟩ := fire_spec receiver ans now h (Nat.lt_succ_self _)
    have hmem : ∀ x ∈ due, x ∈ s.entries.entries := fun x hx =>
      htaken.perm.mem_iff.mpr (mem_append_left _ hx)
    have hleft : ∀ x ∈ s'.entries.entries, x ∈ s.entries.entries := fun x hx =>
      htaken.perm.mem_iff.mpr (mem_append_right _ hx)
    rcases hend with ⟨hfire, hlater⟩ | ⟨k, e, reason, hk, hdue, hrefused, hfire⟩
    · refine .inl ⟨_, _, hfire, fun x hx hle => ?_, htaken.inv, ?_, fun x hx => .inr (hleft x hx),
        .inl rfl, ?_⟩
      · rcases mem_append.mp (htaken.perm.mem_iff.mp hx) with hx | hx
        · exact (htaken.due x hx).2
        · exact absurd hle (not_le_of_gt (hlater x.1 x.2 (lookup_eq_some_iff.mpr hx)))
      · rw [deliveredBy_sentDue]
        refine (messages_perm htaken.perm).trans (List.Perm.append_left _ (.of_eq ?_))
        exact (append_nil _).symm
      · exact .inr ⟨now, rfl, due, rfl, htaken.inOrder,
          fun x hx => ⟨hmem x hx, (htaken.due x hx).1⟩⟩
    · -- the loop has ended at a message that was refused
      refine .inr (.inr ⟨fun hacc => ?_, .send reason, by rw [handle, hfire], by simp⟩)
      have hin : (k, e) ∈ s.entries.entries := hleft _ (lookup_eq_some_iff.mp hk)
      rw [hacc (k, e) hin hdue] at hrefused
      contradiction

end TimerState

/-! ### Runs -/

section Runs

open TimerState

/-- The events that a server has handled, the latest first. -/
abbrev Log (M : Type) := List (History.Event (Server M) (Answers × Event M) (List (Sent M)))

/-- A server with the events that it has handled. -/
abbrev Run (M : Type) := History.Logged (Server M) (Answers × Event M) (List (Sent M))

/-- All that was scheduled. -/
def scheduled (log : Log M) : List (OneshotKey × Entry M) :=
  log.flatMap fun e => scheduledBy e.output e.label.2

/-- All that was sent to the receiver. -/
def delivered (log : Log M) : List (OneshotKey × Entry M) :=
  log.flatMap fun e => deliveredBy e.output

/-- All that was canceled. -/
def canceled (log : Log M) : List (OneshotKey × M) :=
  log.flatMap fun e => canceledBy e.output e.label.2

/-- The slot map hands out no key twice. -/
def FreshKey (s : Run M) (l : Answers × Event M) : Prop :=
  ∀ k ∈ s.state.toOption.bind fun t => l.1.slots.next t.keys, k ∉ (scheduled s.log).map Prod.fst

/-- All that the server sends is accepted. -/
def Accepts (s : Run M) (l : Answers × Event M) : Prop := ∀ t ∈ s.state.toOption, t.Accepted l.1 l.2

instance (s : Run M) (l : Answers × Event M) : Decidable (FreshKey s l) :=
  inferInstanceAs (Decidable (∀ _ ∈ _, _))

instance (s : Run M) (l : Answers × Event M) : Decidable (Accepts s l) :=
  inferInstanceAs (Decidable (∀ _ ∈ _, _))

/-- The runs in which all that is sent is accepted. -/
abbrev Runs (receiver : Address) (s : Run M) : Prop :=
  Reaches (History.step (call receiver)) (fun s l => FreshKey s l ∧ Accepts s l)
    (.start (.ok .empty)) s

/-- Where the messages are. -/
structure Exact (t : TimerState M) (log : Log M) : Prop where
  inv : t.Inv
  nodup : ((scheduled log).map Prod.fst).Nodup
  balance : (messages (scheduled log)).Perm
    (messages t.entries.entries ++ (messages (delivered log) ++ canceled log))
  kept : ∀ x ∈ t.entries.entries, x ∈ scheduled log

/-- What was sent to the receiver had been scheduled, and was sent in time. -/
def Timely (receiver : Address) (log : Log M) : Prop :=
  ∀ e ∈ log, deliveredBy e.output = [] ∨
    ∃ now, e.label.2 = .time now ∧ InTime receiver (scheduled log) now e.output

variable {receiver : Address} {t t' : TimerState M} {log : Log M} {ans : Answers} {event : Event M}
  {sent : List (Sent M)}

/-- An event keeps the timer exact. -/
private theorem Exact.handles {before : Server M} (h : Exact t log)
    (hfresh : ∀ k, ans.slots.next t.keys = some k → k ∉ (scheduled log).map Prod.fst)
    (hh : Handles receiver ans t event sent t') :
    Exact t' (⟨before, (ans, event), sent⟩ :: log) where
  inv := hh.inv
  nodup := by
    have hcons : scheduled (⟨before, (ans, event), sent⟩ :: log) =
        scheduledBy sent event ++ scheduled log := rfl
    rw [hcons]
    rcases hh.new with hnone | ⟨x, hone, hnext⟩
    · rw [hnone]
      exact h.nodup
    · rw [hone]
      exact nodup_cons.mpr ⟨hfresh x.1 hnext, h.nodup⟩
  balance := by
    have hdel : messages (delivered (⟨before, (ans, event), sent⟩ :: log)) =
        messages (deliveredBy sent) ++ messages (delivered log) := map_append
    calc messages (scheduledBy sent event ++ scheduled log)
      _ = messages (scheduledBy sent event) ++ messages (scheduled log) := map_append
      _ |>.Perm (messages (scheduledBy sent event) ++
          (messages t.entries.entries ++ (messages (delivered log) ++ canceled log))) :=
        h.balance.append_left _
      _ = messages (scheduledBy sent event ++ t.entries.entries) ++
          (messages (delivered log) ++ canceled log) := by
        rw [messages, messages, ← append_assoc, ← map_append]
        rfl
      _ |>.Perm (messages t'.entries.entries ++
          (messages (deliveredBy sent) ++ canceledBy sent event) ++
          (messages (delivered log) ++ canceled log)) := hh.balance.append_right _
      _ = messages t'.entries.entries ++ (messages (deliveredBy sent) ++
          (canceledBy sent event ++ (messages (delivered log) ++ canceled log))) := by
        rw [append_assoc, append_assoc]
      _ |>.Perm (messages t'.entries.entries ++ (messages (deliveredBy sent) ++
          (messages (delivered log) ++ (canceledBy sent event ++ canceled log)))) :=
        ((perm_append_comm_assoc ..).append_left _).append_left _
      _ = messages t'.entries.entries ++
          (messages (delivered (⟨before, (ans, event), sent⟩ :: log)) ++
            canceled (⟨before, (ans, event), sent⟩ :: log)) := by
        rw [hdel, append_assoc]
        rfl
  kept x hx := by
    rcases hh.kept x hx with hnew | hold
    · exact mem_append_left _ hnew
    · exact mem_append_right _ (h.kept x hold)

/-- One more event. -/
private theorem Timely.cons {e : History.Event (Server M) (Answers × Event M) (List (Sent M))}
    (h : Timely receiver log)
    (he : deliveredBy e.output = [] ∨
      ∃ now, e.label.2 = .time now ∧ InTime receiver (scheduled log) now e.output) :
    Timely receiver (e :: log) := by
  have hsub : ∀ x ∈ scheduled log, x ∈ scheduled (e :: log) := fun x hx =>
    mem_append_right _ hx
  intro e' he'
  have hbefore : deliveredBy e'.output = [] ∨
      ∃ now, e'.label.2 = .time now ∧ InTime receiver (scheduled log) now e'.output := by
    rcases mem_cons.mp he' with rfl | hold
    · exact he
    · exact h e' hold
  rcases hbefore with hnone | ⟨now, hnow, htime⟩
  · exact .inl hnone
  · exact .inr ⟨now, hnow, htime.mono hsub⟩

/-- The timer is exact or has run out of keys. -/
private theorem inv_of_runs {s : Run M} (h : Runs receiver s) :
    Timely receiver s.log ∧
      ((∃ t, s.state = .ok t ∧ Exact t s.log) ∨ s.state = .error (.panic .full)) := by
  refine History.log_invariant (P := fun s log => Timely receiver log ∧
    ((∃ t, s = .ok t ∧ Exact t log) ∨ s = .error (.panic .full))) h ?_ ?_
  · refine ⟨fun e he => absurd he not_mem_nil, .inl ⟨_, rfl, inv_empty, nodup_nil, ?_, ?_⟩⟩
    · exact .refl _
    · exact fun x hx => absurd hx not_mem_nil
  · rintro s s' log ⟨ans, event⟩ sent ⟨htimely, hstate⟩ ⟨hfresh, hacc⟩ hcall
    rcases hstate with ⟨t, rfl, hexact⟩ | rfl
    · have hcall' : s' = (t.handle receiver ans event).2 ∧ sent = (t.handle receiver ans event).1 :=
        ⟨(congrArg Prod.fst (some.inj hcall)).symm, (congrArg Prod.snd (some.inj hcall)).symm⟩
      obtain ⟨rfl, rfl⟩ := hcall'
      rcases handle_spec receiver ans hexact.inv event with
        ⟨sent, t', hhandle, -, hh⟩ | ⟨hfull, -⟩ | ⟨hnot, -⟩
      · rw [hhandle]
        have htime : deliveredBy sent = [] ∨
            ∃ now, event = .time now ∧ InTime receiver (scheduled log) now sent := by
          rcases hh.timed with hnone | ⟨now, hnow, htime⟩
          · exact .inl hnone
          · exact .inr ⟨now, hnow, htime.mono hexact.kept⟩
        exact ⟨htimely.cons htime, .inl ⟨t', rfl, hexact.handles hfresh hh⟩⟩
      · rw [hfull]
        exact ⟨htimely.cons (.inl rfl), .inr rfl⟩
      · exact absurd (hacc t rfl) hnot
    · obtain ⟨rfl, rfl⟩ := Prod.mk.inj (some.inj hcall)
      exact ⟨htimely.cons (.inl rfl), .inr rfl⟩

/-- A message that was sent or canceled is not there any more. -/
private theorem Exact.lookup_eq_none {k : OneshotKey} (h : Exact t log)
    (hk : k ∈ (delivered log).map Prod.fst ∨ k ∈ (canceled log).map Prod.fst) :
    t.entries.lookup k = none := by
  have hfst : ∀ l : List (OneshotKey × Entry M), (messages l).map Prod.fst = l.map Prod.fst :=
    fun l => by rw [messages, List.map_map]; rfl
  have hnodup := (h.balance.map Prod.fst).nodup_iff.mp (by rw [hfst]; exact h.nodup)
  rw [List.map_append, List.map_append, hfst, hfst] at hnodup
  refine lookup_eq_none_iff.mpr fun hin => ?_
  exact (List.nodup_append.mp hnodup).2.2 k hin k (List.mem_append.mpr hk) rfl

/-- The checks of the loop never fail. -/
private theorem handle_time_ne_panic (ans : Answers) (h : t.Inv) (now : Instant) (p : TimerPanic) :
    (t.handle receiver ans (.time now)).2 ≠ .error (.panic p) := by
  obtain ⟨due, t', -, hend⟩ := fire_spec receiver ans now h (Nat.lt_succ_self _)
  rw [handle]
  rcases hend with ⟨hfire, -⟩ | ⟨k, e, reason, -, -, -, hfire⟩
  · rw [hfire]
    simp
  · rw [hfire]
    simp

/-- **The timer is exact.** After any events, while all that it sends is accepted: the two
collections agree; every message that was scheduled is pending, or was sent once and not early, or
was canceled once; a key whose message is gone finds nothing, whatever is in its slot by now; and no
check of the loop fails. What can end the server is a slot map that is full. -/
theorem exact_of_runs {s : Run M} (h : Runs receiver s) :
    Timely receiver s.log ∧
      ((∃ t, s.state = .ok t ∧
          (∀ x, (x, ()) ∈ t.ordered ↔ ∃ k e, t.entries.lookup k = some e ∧ x = (e.at', k)) ∧
          ((scheduled s.log).map Prod.fst).Nodup ∧
          (messages (scheduled s.log)).Perm
            (messages t.entries.entries ++ (messages (delivered s.log) ++ canceled s.log)) ∧
          (∀ x ∈ t.entries.entries, x ∈ scheduled s.log) ∧
          (∀ ans header k, ans.reply = .ok () →
            k ∈ (delivered s.log).map Prod.fst ∨ k ∈ (canceled s.log).map Prod.fst →
            t.handle receiver ans (.cancel header k) = ([.canceled header none], .ok t)) ∧
          ∀ ans now p, (t.handle receiver ans (.time now)).2 ≠ .error (.panic p)) ∨
        s.state = .error (.panic .full)) := by
  obtain ⟨htimely, ⟨t, hstate, hexact⟩ | hfull⟩ := inv_of_runs h
  · refine ⟨htimely, .inl ⟨t, hstate, hexact.inv.ordered, hexact.nodup, hexact.balance, hexact.kept,
      fun ans header k hreply hk => ?_, fun ans now p => handle_time_ne_panic ans hexact.inv now p⟩⟩
    rw [handle, hexact.lookup_eq_none hk]
    dsimp only
    rw [reply, hreply]
  · exact ⟨htimely, .inr hfull⟩

/-- A slot map whose next key is this one. -/
def Answers.withKey (k : OneshotKey) : Answers where
  slots :=
    { next := fun live => if k ∈ live then none else some k
      fresh := by
        intro live k' h
        split at h
        case isTrue => contradiction
        case isFalse hnot =>
          obtain rfl := some.inj h
          exact hnot }
  reply := .ok ()
  send _ := .ok ()

/-- A slot that is used again: the key of the message that was in it before finds nothing. -/
def reusedSlot : List (Answers × Event String) :=
  let first := slotKey 1
  let second := slotKey 2
  let again : OneshotKey := ⟨1, 3, rfl, by decide⟩
  [(.withKey first, .schedule ⟨1, ⟨7⟩⟩ 5 "a"), (.withKey second, .schedule ⟨2, ⟨7⟩⟩ 3 "b"),
    (.withKey again, .time 5),
    (.withKey again, .schedule ⟨3, ⟨7⟩⟩ 9 "c"),
    (.withKey (slotKey 3), .cancel ⟨4, ⟨7⟩⟩ first)]

/-- Three messages: two delivered, one pending. -/
theorem exact_of_runs_reused : ∃ s : Run String, Runs ⟨7⟩ s ∧
    (delivered s.log).map (fun x => x.2.message) = ["b", "a"] ∧
    s.log.head?.map History.Event.output = some [.canceled ⟨4, ⟨7⟩⟩ none] ∧
    ∃ t, s.state = .ok t ∧ messages t.entries.entries = [(⟨1, 3, rfl, by decide⟩, "c")] ∧
      (messages (scheduled s.log)).Perm
        (messages t.entries.entries ++ (messages (delivered s.log) ++ canceled s.log)) := by
  have h : Runs ⟨7⟩ _ := reaches_get reusedSlot rfl
  rcases (exact_of_runs h).2 with ⟨t, hstate, -, -, hbalance, -⟩ | hfull
  · obtain rfl := Except.ok.inj hstate
    exact ⟨_, h, rfl, rfl, _, hstate, rfl, hbalance⟩
  · contradiction

/-! ### Refused sends -/

/-- The message of this key was due, and its send was refused. -/
def WasRefused (log : Log M) (k : OneshotKey) : Prop :=
  ∃ e ∈ log, ∃ t ∈ e.before.toOption, ∃ now, e.label.2 = .time now ∧
    ∃ entry, t.entries.lookup k = some entry ∧ entry.at' ≤ now ∧ e.label.1.send k ≠ .ok ()

/-- What a refused send may do to a server: the message that was sent is lost, and no other. What is
pending will be sent when it is due, unless it is canceled, and requests are answered. -/
structure GoesOn (receiver : Address) (t : TimerState M) (log : Log M) : Prop where
  kept : ∀ x ∈ scheduled log, x ∈ t.entries.entries ∨
    (x.1, x.2.message) ∈ messages (delivered log) ∨ (x.1, x.2.message) ∈ canceled log ∨
    WasRefused log x.1
  wakes : ∀ x ∈ t.entries.entries, ∃ first, t.wakeAt = some first ∧ first ≤ x.2.at'
  delivers : ∀ ans now, t.Accepted ans (.time now) → ∃ due t',
    t.handle receiver ans (.time now) = (sentDue receiver due, .ok t') ∧
    ∀ x ∈ t.entries.entries, x ∈ if x.2.at' ≤ now then due else t'.entries.entries
  cancels : ∀ ans header k, ans.reply = .ok () → ∃ t', t.handle receiver ans (.cancel header k) =
    ([.canceled header ((t.entries.lookup k).map Entry.message)], .ok t')
  schedules : ∀ ans header at' message k, ans.reply = .ok () → ans.slots.next t.keys = some k →
    ∃ t', t.handle receiver ans (.schedule header at' message) = ([.scheduled header k], .ok t') ∧
      (k, ⟨at', message⟩) ∈ t'.entries.entries

/-- The server goes on. -/
def Unharmed (receiver : Address) (s : Run M) : Prop :=
  ∃ t, s.state = .ok t ∧ GoesOn receiver t s.log

/-- Where a message is. -/
private theorem Exact.mem_cases {x : OneshotKey × Entry M} (h : Exact t log)
    (hx : x ∈ scheduled log) :
    x ∈ t.entries.entries ∨ (x.1, x.2.message) ∈ messages (delivered log) ∨
      (x.1, x.2.message) ∈ canceled log := by
  have hmem : (x.1, x.2.message) ∈ messages (scheduled log) := mem_map_of_mem hx
  rcases mem_append.mp (h.balance.mem_iff.mp hmem) with hpending | hgone
  · left
    obtain ⟨y, hy, heq⟩ := mem_map.mp hpending
    have hxy : y = x := inj_on_of_nodup_map h.nodup (h.kept y hy) hx (Prod.mk.inj heq).1
    exact hxy ▸ hy
  · exact .inr (mem_append.mp hgone)

/-- An exact timer goes on. -/
private theorem Exact.goesOn (h : Exact t log) : GoesOn receiver t log where
  kept x hx := by
    rcases h.mem_cases hx with hpending | hdelivered | hcanceled
    · exact .inl hpending
    · exact .inr (.inl hdelivered)
    · exact .inr (.inr (.inl hcanceled))
  wakes x hx := h.inv.wakeAt_le (lookup_eq_some_iff.mpr hx)
  delivers ans now hacc := by
    obtain ⟨due, t', htaken, hend⟩ := fire_spec receiver ans now h.inv (Nat.lt_succ_self _)
    rcases hend with ⟨hfire, hlater⟩ | ⟨k, e, reason, hk, hdue, hrefused, -⟩
    · refine ⟨due, t', hfire, fun x hx => ?_⟩
      rcases mem_append.mp (htaken.perm.mem_iff.mp hx) with hin | hleft
      · rw [if_pos (htaken.due x hin).1]
        exact hin
      · have hlt := hlater x.1 x.2 (lookup_eq_some_iff.mpr hleft)
        rw [if_neg (not_le_of_gt hlt)]
        exact hleft
    · have hin : (k, e) ∈ t.entries.entries :=
        htaken.perm.mem_iff.mpr (mem_append_right _ (lookup_eq_some_iff.mp hk))
      rw [hacc (k, e) hin hdue] at hrefused
      contradiction
  cancels ans header k hreply := by
    obtain ⟨t', -, -, hhandle⟩ := handle_cancel receiver ans header k h.inv
    exact ⟨t', by rw [hhandle, reply, hreply]⟩
  schedules ans header at' message k hreply hnext := by
    rcases handle_schedule receiver ans header at' message h.inv with
      ⟨hnone, -⟩ | ⟨k', t', hnext', -, hentries, hhandle⟩
    · rw [hnext] at hnone
      contradiction
    · obtain rfl := some.inj (hnext.symm.trans hnext')
      refine ⟨t', by rw [hhandle, reply, hreply], ?_⟩
      rw [hentries]
      exact mem_append_right _ (mem_singleton_self _)

/-- **What a refused send does.** While all that the server sends is accepted, it goes on; the first
send that is refused ends it, with all that is pending. -/
theorem unharmed_iff_accepts {s : Run M} (h : Runs receiver s)
    (hroom : s.state ≠ .error (.panic .full)) :
    Unharmed receiver s ∧
      ∀ l s', FreshKey s l → (∀ t ∈ s.state.toOption, l.1.slots.next t.keys ≠ none) →
        History.step (call receiver) s l = some s' → (Unharmed receiver s' ↔ Accepts s l) := by
  obtain ⟨-, ⟨t, hstate, hexact⟩ | hfull⟩ := inv_of_runs h
  swap
  · exact absurd hfull hroom
  refine ⟨⟨t, hstate, hexact.goesOn⟩, ?_⟩
  intro l s' hfresh hslots hstep
  have ht : t ∈ s.state.toOption := by rw [hstate]; rfl
  have hafter : s'.state = (t.handle receiver l.1 l.2).2 := by
    obtain ⟨sent, hcall, -⟩ := History.step_eq_some hstep
    rw [hstate] at hcall
    exact (congrArg Prod.fst (some.inj hcall)).symm
  have hroom' : s'.state ≠ .error (.panic .full) := by
    rw [hafter]
    rcases handle_spec receiver l.1 hexact.inv l.2 with
      ⟨sent, t', hhandle, -⟩ | ⟨-, hnone⟩ | ⟨-, reason, hreason, hne⟩
    · rw [hhandle]
      simp
    · exact absurd hnone (hslots t ht)
    · rw [hreason]
      exact fun heq => hne _ (Except.error.inj heq)
  constructor
  · rintro ⟨t', hstate', -⟩ t₀ ht₀
    obtain rfl : t = t₀ := by
      rw [hstate] at ht₀
      exact some.inj ht₀
    rw [hafter] at hstate'
    rcases handle_spec receiver l.1 hexact.inv l.2 with
      ⟨-, -, -, hacc, -⟩ | ⟨-, hnone⟩ | ⟨-, reason, hreason, -⟩
    · exact hacc
    · exact absurd hnone (hslots t ht)
    · rw [hreason] at hstate'
      contradiction
  · intro hacc
    obtain ⟨-, ⟨t', hstate', hexact'⟩ | hfull⟩ := inv_of_runs (h.tail ⟨hfresh, hacc⟩ hstep)
    · exact ⟨t', hstate', hexact'.goesOn⟩
    · exact absurd hfull hroom'

/-- The inbox of the receiver is full. -/
def Answers.refusing : Answers :=
  { Answers.withKey (slotKey 3) with send := fun _ => .error ⟨.closed, ""⟩ }

/-- The next message is due: the server goes on if its send is accepted, and ends if not. -/
theorem unharmed_iff_accepts_reused : ∃ s s₁ s₂ : Run String,
    Runs ⟨7⟩ s ∧ s.log.length = 5 ∧ Unharmed ⟨7⟩ s ∧
      History.step (call ⟨7⟩) s (.withKey (slotKey 3), .time 9) = some s₁ ∧ Unharmed ⟨7⟩ s₁ ∧
      History.step (call ⟨7⟩) s (.refusing, .time 9) = some s₂ ∧ ¬ Unharmed ⟨7⟩ s₂ := by
  have h : Runs ⟨7⟩ _ := reaches_get reusedSlot rfl
  obtain ⟨hgoes, hnext⟩ := unharmed_iff_accepts h fun hfull => by contradiction
  refine ⟨_, _, _, h, rfl, hgoes, rfl, (hnext _ _ (by decide) ?_ rfl).mpr (by decide), rfl,
    (hnext _ _ (by decide) ?_ rfl).not.mpr (by decide)⟩
  all_goals
    intro t ht
    obtain rfl := some.inj ht
    decide

/-- Two messages; the inbox of the receiver is full when the first of them is due. -/
def fullInbox : List (Answers × Event String) :=
  [(.withKey (slotKey 1), .schedule ⟨1, ⟨7⟩⟩ 5 "a"),
    (.withKey (slotKey 2), .schedule ⟨2, ⟨7⟩⟩ 60 "b"), (.refusing, .time 5)]

/-- The refused send of one message ends the server. The other one, not due before 60, is neither
pending nor sent nor canceled, and requests are no longer answered. -/
theorem lost_of_refused_send : ∃ s : Run String,
    Reaches (History.step (call ⟨7⟩)) FreshKey (.start (.ok .empty)) s ∧
      (slotKey 2, ⟨60, "b"⟩) ∈ scheduled s.log ∧
      s.state = .error (.send ⟨.closed, ""⟩) ∧ delivered s.log = [] ∧ canceled s.log = [] ∧
      (∀ l, call ⟨7⟩ s.state l = some (s.state, [])) ∧ ¬ Unharmed ⟨7⟩ s := by
  refine ⟨_, reaches_get fullInbox rfl, by decide, rfl, rfl, rfl, fun l => rfl, ?_⟩
  rintro ⟨t, hok, -⟩
  contradiction

end Runs

end Timer

end Mm1
