import Mm1.Runtime.MailboxQueue

/-!
# Pings

`ping` sends a message with a number and waits for the answer with the same number. It does not
receive the answer itself: whichever fork calls `process_inlets` next takes it from the channel and
writes its number into the entry of the fork that waits, and `ping` looks there each time it has
called `process_inlets`. There is room for one number, and every answer is written there, also one
that comes late and belongs to a ping that has been given up. So an answer can be overwritten by an
older one before `ping` has seen it.

* `pingSlot_of_call`: what a step of the mailbox does to that number;
* `check_iff`: when `ping` sees the answer that has come;
* `pong_overwritten`: an answer that is missed.
-/

namespace Mm1

open Option

namespace Mailbox

variable {M : Type} {isOpen : Bool} {r : Roster Address (ForkEntry M)} {b : Address} {lane : Lane}
  {envelope : Envelope M} {dst : Address} {passed : Bool} {i : Inlets}

/-! ### The number of the last answer -/

/-- The `last_ping_received` of a fork. -/
def pingSlot (forkEntries : Roster Address (ForkEntry M)) (a : Address) :
    Option (Option (BitVec 64)) :=
  (forkEntries.lookup a).map ForkEntry.lastPingReceived

private theorem isSome_of_pingSlot {forkEntries : Roster Address (ForkEntry M)} {a : Address}
    {slot : Option (BitVec 64)} (h : pingSlot forkEntries a = some slot) :
    (forkEntries.lookup a).isSome = true := by
  obtain ⟨entry, hentry, -⟩ := map_eq_some_iff.mp h
  rw [hentry]
  rfl

namespace SubnetContext

variable {s s' : SubnetContext M} {l : Label M} {marks : List (Mark M)} {a : Address}
  {fork : Address}

/-- For which fork a message is the answer to a ping, and to which. -/
def pongOf (s : SubnetContext M) (m : Message M) : Option (Address × BitVec 64) :=
  match m.envelope.content with
  | .ping none id =>
    if (s.forkEntries.lookup (s.route m.dst)).isSome then some (s.route m.dst, id) else none
  | _ => none

/-- The answer that is taken from the channel of priority messages in this step. -/
def pong (s : SubnetContext M) : Label M → Option (Address × BitVec 64)
  | .turn _ => s.inlets.bind fun i =>
    if i.lane = .priority then (s.rx .priority).head?.bind s.pongOf else none
  | _ => none

/-- A number is written into the entry of a fork. -/
def written (slot : Option (Option (BitVec 64))) (a : Address) :
    Option (Address × BitVec 64) → Option (Option (BitVec 64))
  | some (b, id) => if b = a then some (some id) else slot
  | none => slot

private theorem pingSlot_modify {f : ForkEntry M → ForkEntry M}
    (hf : ∀ e, (f e).lastPingReceived = e.lastPingReceived) :
    pingSlot (r.modify b f) a = pingSlot r a := by
  rw [pingSlot, pingSlot, Roster.lookup_modify]
  split
  · rw [map_map]
    exact congrArg (Option.map · (r.lookup a)) (funext hf)
  · rfl

private theorem send_forkEntries {n : ℕ} :
    (s.send n dst lane envelope isOpen).1.forkEntries = s.forkEntries := by
  cases lane with
  | priority =>
    rw [send]
    split <;> rfl
  | regular =>
    rw [send]
    split
    · rfl
    · split <;> rfl

private theorem sendTo_forkEntries :
    (s.sendTo dst lane envelope isOpen).1.forkEntries = s.forkEntries := by
  rw [sendTo]
  split
  · rfl
  · exact send_forkEntries

private theorem bind_forkEntries {bindTo : NetAddress} {inboxSize : ℕ} {granted : Bool} :
    (s.bind fork bindTo inboxSize granted).1.forkEntries = s.forkEntries := by
  rw [SubnetContext.bind]
  split
  · rfl
  · split
    · split <;> rfl
    · rfl

private theorem pingSlot_recv :
    pingSlot (s.recv fork).1.forkEntries a = pingSlot s.forkEntries a := by
  have hpop : ∀ lane m rest, pingSlot (s.pop fork lane m rest).1.forkEntries a =
      pingSlot s.forkEntries a := by
    intro lane m rest
    rw [pop, release_forkEntries]
    exact pingSlot_modify fun _ => rfl
  rw [recv]
  split
  · rfl
  · split
    · exact hpop ..
    · exact hpop ..
    · rfl

/-- What a turn of `process_inlets` writes. -/
private theorem pingSlot_deliver {m : Message M} :
    pingSlot (s.deliver lane m isOpen).1.forkEntries a =
      written (pingSlot s.forkEntries a) a (if lane = .priority then s.pongOf m else none) := by
  rw [deliver.eq_def]
  dsimp only
  split
  case isFalse hnone =>
    rw [release_forkEntries]
    have hpong : s.pongOf m = none := by
      rw [pongOf]
      split
      · exact if_neg hnone
      · rfl
    rw [hpong, ite_self]
    rfl
  case isTrue hfork =>
    cases lane with
    | regular => exact pingSlot_modify fun _ => rfl
    | priority =>
      rw [if_pos rfl, pongOf]
      cases hcontent : m.envelope.content with
      | other message => exact pingSlot_modify fun _ => rfl
      | ping replyTo id =>
        cases replyTo with
        | some replyTo => exact congrArg (pingSlot · a) sendTo_forkEntries
        | none =>
          dsimp only
          rw [if_pos hfork, written, pingSlot, Roster.lookup_modify]
          by_cases ha : s.route m.dst = a
          · subst ha
            obtain ⟨e, he⟩ := isSome_iff_exists.mp hfork
            rw [if_pos rfl, if_pos rfl, he]
            rfl
          · rw [if_neg ha, if_neg (Ne.symm ha)]
            rfl

/-- A turn writes a pong to its slot. -/
private theorem pingSlot_turn (hi : s.inlets = some i)
    (h : s.turn i.lane isOpen = some (s', marks)) :
    pingSlot s'.forkEntries a = written (pingSlot s.forkEntries a) a (s.pong (.turn isOpen)) := by
  rw [turn] at h
  cases hrx : s.rx i.lane with
  | nil => simp [hrx] at h
  | cons m rest =>
    rw [hrx] at h
    obtain rfl : _ = s' := congrArg Prod.fst (some.inj h)
    rw [pingSlot_deliver, pong, hi, bind_some]
    by_cases hlane : i.lane = .priority
    · rw [hlane] at hrx
      rw [if_pos hlane, if_pos hlane, hrx]
      rfl
    · rw [if_neg hlane, if_neg hlane]

private theorem pingSlot_stop {contended : Bool} :
    pingSlot (s.stop i contended).1.forkEntries a = pingSlot s.forkEntries a := by
  rw [SubnetContext.stop]
  split
  · rfl
  · split
    · exact pingSlot_recv
    · rfl

private theorem pingSlot_put {entry : ForkEntry M} (hne : a ≠ b) :
    pingSlot (r.put b entry) a = pingSlot r a := by
  rw [pingSlot, Roster.lookup_put, if_neg hne]
  rfl

private theorem pingSlot_erase (hne : a ≠ b) : pingSlot (r.erase b) a = pingSlot r a := by
  have herase : (r.erase b).lookup a = r.lookup a := by
    ext e
    rw [Roster.lookup_erase_eq_some, and_iff_right hne]
  rw [pingSlot, herase]
  rfl

/-- **The number of the last answer** that a fork has is written by the turns that take an answer
for the fork, and by nothing else as long as the fork is there. -/
theorem pingSlot_of_call (h : s.call l = some (s', marks)) (hdrop : l ≠ .drop a)
    (hfork : (s.forkEntries.lookup a).isSome = true) :
    pingSlot s'.forkEntries a = written (pingSlot s.forkEntries a) a (s.pong l) := by
  cases l with
  | send n dst lane envelope isOpen =>
    obtain ⟨-, heq⟩ := ite_none_right_eq_some.mp h
    obtain rfl : _ = s' := congrArg Prod.fst (some.inj heq)
    exact congrArg (pingSlot · a) send_forkEntries
  | enter fork receives =>
    obtain ⟨-, heq⟩ := ite_none_right_eq_some.mp h
    obtain rfl : _ = s' := congrArg Prod.fst (some.inj heq)
    rfl
  | turn isOpen =>
    obtain ⟨i, hi, hturn⟩ := bind_eq_some_iff.mp h
    exact pingSlot_turn hi hturn
  | stop contended =>
    obtain ⟨i, -, hstop⟩ := bind_eq_some_iff.mp h
    obtain ⟨-, heq⟩ := ite_none_right_eq_some.mp hstop
    obtain rfl : _ = s' := congrArg Prod.fst (some.inj heq)
    exact pingSlot_stop
  | fail reason =>
    obtain ⟨i, -, heq⟩ := map_eq_some_iff.mp h
    obtain rfl : _ = s' := congrArg Prod.fst heq
    rfl
  | fork address =>
    obtain ⟨⟨-, -, -, hnew⟩, heq⟩ := ite_none_right_eq_some.mp h
    obtain rfl : _ = s' := congrArg Prod.fst (some.inj heq)
    refine pingSlot_put ?_
    rintro rfl
    rw [hnew] at hfork
    contradiction
  | bind fork bindTo inboxSize granted =>
    obtain ⟨-, heq⟩ := ite_none_right_eq_some.mp h
    obtain rfl : _ = s' := congrArg Prod.fst (some.inj heq)
    exact congrArg (pingSlot · a) bind_forkEntries
  | drop fork =>
    obtain ⟨-, hmap⟩ := ite_none_right_eq_some.mp h
    obtain ⟨entry, -, heq⟩ := map_eq_some_iff.mp hmap
    obtain rfl : _ = s' := congrArg Prod.fst heq
    rw [drop_forkEntries]
    exact pingSlot_erase fun heq => hdrop (by rw [heq])

end SubnetContext

/-! ### The loop of `ping` -/

/-- `PingErrorKind` -/
inductive PingErrorKind where
  | send
  | recv
  | timeout
  deriving DecidableEq

/-- The mailbox, and the number of the ping that each fork waits for. -/
structure Pinger (M : Type) where
  context : SubnetContext M
  waiting : Address → Option (BitVec 64)

namespace Pinger

/-- A step of the forks of an actor and of those who send to them. -/
inductive Step (M : Type) where
  /-- a step of the mailbox -/
  | mailbox (l : Label M)
  /-- a fork calls `ping`, with this random number; `isOpen` tells whether the message is sent -/
  | ping (fork : Address) (address : Address) (id : BitVec 64) (isOpen : Bool)
  /-- the deadline of the ping is over -/
  | timeout (fork : Address)
  /-- the future of `ping` is dropped -/
  | cancel (fork : Address)

/-- What a step comes to for a ping. -/
inductive Outcome where
  | nothing
  /-- `last_ping_received == Some(ping_id)` was tested; if it is so, `ping` returns `Ok` -/
  | checked (fork : Address) (passed : Bool)
  | failed (fork : Address) (kind : PingErrorKind)
  deriving DecidableEq

/-- No fork waits. -/
def init (context : SubnetContext M) : Pinger M := ⟨context, fun _ => none⟩

/-- A fork that waits calls `process_inlets` in the loop of `ping`. It neither ends nor binds. -/
def Allows (w : Pinger M) : Label M → Prop
  | .enter fork receives => receives = (w.waiting fork).isNone
  | .drop fork => w.waiting fork = none
  | .bind fork _ _ _ => w.waiting fork = none
  | _ => True

instance (w : Pinger M) : (l : Label M) → Decidable (w.Allows l)
  | .enter _ _ => inferInstanceAs (Decidable (_ = _))
  | .drop _ => inferInstanceAs (Decidable (_ = _))
  | .bind _ _ _ _ => inferInstanceAs (Decidable (_ = _))
  | .send _ _ _ _ _ => instDecidableTrue
  | .turn _ => instDecidableTrue
  | .stop _ => instDecidableTrue
  | .fail _ => instDecidableTrue
  | .fork _ => instDecidableTrue

/-- `fork_entries.get(fork_address).last_ping_received == Some(ping_id)` -/
def check (w : Pinger M) (fork : Address) : Bool :=
  match w.waiting fork, w.context.forkEntries.lookup fork with
  | some pingId, some entry => entry.lastPingReceived = some pingId
  | _, _ => false

/-- The ping of a fork is over. -/
def settle (w : Pinger M) (fork : Address) : Pinger M :=
  { w with waiting := Function.update w.waiting fork none }

/-- What follows a step of the mailbox: the end of a `process_inlets` that `ping` has called. -/
def resume (w : Pinger M) (inlets : Option Inlets) : Label M → Pinger M × Outcome
  | .stop _ =>
    match inlets with
    | some i =>
      if i.lane = .regular ∧ i.receives = false then
        if w.check i.fork then (w.settle i.fork, .checked i.fork true)
        else (w, .checked i.fork false)
      else (w, .nothing)
    | none => (w, .nothing)
  | .fail _ =>
    match inlets with
    | some i => if i.receives then (w, .nothing) else (w.settle i.fork, .failed i.fork .recv)
    | none => (w, .nothing)
  | _ => (w, .nothing)

/-- The fork is not in `process_inlets`. -/
def Idle (w : Pinger M) (fork : Address) : Prop := ∀ i ∈ w.context.inlets, i.fork ≠ fork

instance (w : Pinger M) (fork : Address) : Decidable (w.Idle fork) :=
  inferInstanceAs (Decidable (∀ i ∈ w.context.inlets, i.fork ≠ fork))

/-- Make a step, if it can be made. -/
def call (w : Pinger M) : Step M → Option (Pinger M × Outcome)
  | .mailbox l =>
    if w.Allows l then
      (w.context.call l).map fun r => resume { w with context := r.1 } w.context.inlets l
    else none
  | .ping fork address id isOpen =>
    if w.context.inlets = none ∧ (w.context.forkEntries.lookup fork).isSome ∧
        w.waiting fork = none then
      let context := (w.context.sendTo address .priority
        ⟨EnvelopeHeader.defaultTtl, true, .ping (some fork) id⟩ isOpen).1
      if isOpen then
        some ({ context, waiting := Function.update w.waiting fork (some id) }, .nothing)
      else some ({ w with context }, .failed fork .send)
    else none
  | .timeout fork =>
    if w.Idle fork ∧ (w.waiting fork).isSome then some (w.settle fork, .failed fork .timeout)
    else none
  | .cancel fork => if w.Idle fork then some (w.settle fork, .nothing) else none

/-! ### The answers that have come -/

open History Transition

variable {w w' : Pinger M} {l : Step M} {o : Outcome} {a fork : Address} {id : BitVec 64}
  {log : List (Event (Pinger M) (Step M) Outcome)} {e : Event (Pinger M) (Step M) Outcome}

/-- The fork begins to wait. -/
def Step.starts (a : Address) : Step M → Bool
  | .ping fork _ _ isOpen => fork = a && isOpen
  | _ => false

/-- The answer that is taken from the channel in this step. -/
def pong (w : Pinger M) : Step M → Option (Address × BitVec 64)
  | .mailbox l => w.context.pong l
  | _ => none

/-- The answers that have been taken for a fork since it began to wait, the latest first. -/
def pongs (a : Address) : List (Event (Pinger M) (Step M) Outcome) → List (BitVec 64)
  | [] => []
  | e :: log =>
    if e.label.starts a then []
    else
      match e.before.pong e.label with
      | some (fork, id) => if fork = a then id :: pongs a log else pongs a log
      | none => pongs a log

/-- The number of the last answer is that of the last one taken. -/
def Kept (w : Pinger M) (log : List (Event (Pinger M) (Step M) Outcome)) : Prop :=
  ∀ fork id, w.waiting fork = some id →
    ∃ slot, pingSlot w.context.forkEntries fork = some slot ∧
      ∀ last, (pongs fork log).head? = some last → slot = some last

/-- A step that takes no answer for the fork. -/
private theorem pongs_cons_of_none (hstarts : l.starts a = false)
    (hpong : ∀ id, w.pong l ≠ some (a, id)) : pongs a (⟨w, l, o⟩ :: log) = pongs a log := by
  rw [pongs, hstarts, if_neg Bool.false_ne_true]
  split
  case h_1 fork id hsome =>
    refine if_neg fun heq => hpong id ?_
    rw [← heq]
    exact hsome
  case h_2 => rfl

private theorem pongs_cons_of_some (hstarts : l.starts a = false)
    (hpong : w.pong l = some (a, id)) : pongs a (⟨w, l, o⟩ :: log) = id :: pongs a log := by
  rw [pongs, hstarts, if_neg Bool.false_ne_true, hpong]
  exact if_pos rfl

private theorem settle_waiting (w : Pinger M) (b fork : Address) :
    (w.settle b).waiting fork = if fork = b then none else w.waiting fork :=
  Function.update_apply ..

private theorem waiting_of_settle (h : (w.settle b).waiting fork = some id) :
    w.waiting fork = some id := by
  rw [settle_waiting] at h
  split at h
  · contradiction
  · exact h

/-- After a step of the mailbox, a fork waits for what it has waited for, or not at all. -/
private theorem resume_spec (w : Pinger M) (inlets : Option Inlets) (l : Label M) :
    (w.resume inlets l).1.context = w.context ∧
      ∀ fork id, (w.resume inlets l).1.waiting fork = some id → w.waiting fork = some id := by
  have hsame : w.context = w.context ∧
      ∀ fork id, w.waiting fork = some id → w.waiting fork = some id := ⟨rfl, fun _ _ => id⟩
  have hsettle : ∀ b, (w.settle b).context = w.context ∧
      ∀ fork id, (w.settle b).waiting fork = some id → w.waiting fork = some id :=
    fun b => ⟨rfl, fun _ _ h => waiting_of_settle h⟩
  cases inlets with
  | none => cases l <;> exact hsame
  | some i =>
    cases l with
    | stop contended =>
      rw [resume]
      split
      · split
        · exact hsettle i.fork
        · exact hsame
      · exact hsame
    | fail reason =>
      rw [resume]
      split
      · exact hsame
      · exact hsettle i.fork
    | _ => exact hsame

/-- A step of the mailbox, and what follows it. -/
private theorem mailbox_of_call {l : Label M} (hc : w.call (.mailbox l) = some (w', o)) :
    w.Allows l ∧ ∃ context marks, w.context.call l = some (context, marks) ∧
      resume { w with context } w.context.inlets l = (w', o) := by
  obtain ⟨hallow, hmap⟩ := ite_none_right_eq_some.mp hc
  obtain ⟨⟨context, marks⟩, hcall, heq⟩ := map_eq_some_iff.mp hmap
  exact ⟨hallow, context, marks, hcall, heq⟩

/-- The answer of a step of the mailbox, if there is one for the fork, is the last one and is
written. -/
private theorem Kept.mailbox {l : Label M} (h : Kept w log)
    (hc : w.call (.mailbox l) = some (w', o)) : Kept w' (⟨w, .mailbox l, o⟩ :: log) := by
  intro fork id hwait
  obtain ⟨hallow, context, marks, hcall, heq⟩ := mailbox_of_call hc
  obtain ⟨hcontext, hwaiting⟩ := resume_spec { w with context } w.context.inlets l
  rw [heq] at hcontext hwaiting
  have hwait : w.waiting fork = some id := hwaiting fork id hwait
  obtain ⟨slot, hslot, hlast⟩ := h fork id hwait
  have hdrop : l ≠ .drop fork := by
    rintro rfl
    have hnone : w.waiting fork = none := hallow
    rw [hnone] at hwait
    contradiction
  have hwritten := SubnetContext.pingSlot_of_call hcall hdrop (isSome_of_pingSlot hslot)
  rw [hcontext, hwritten, hslot]
  by_cases hpong : ∃ last, w.context.pong l = some (fork, last)
  · obtain ⟨last, hpong⟩ := hpong
    refine ⟨some last, ?_, ?_⟩
    · rw [hpong, SubnetContext.written, if_pos rfl]
    · intro last' hhead
      rw [pongs_cons_of_some (l := .mailbox l) rfl hpong] at hhead
      exact hhead
  · have hnot : ∀ last, w.context.pong l ≠ some (fork, last) := fun last heq => hpong ⟨last, heq⟩
    refine ⟨slot, ?_, ?_⟩
    · cases hp : w.context.pong l with
      | none => rfl
      | some p =>
        refine if_neg fun heq => hnot p.2 ?_
        rw [hp, ← heq]
    · rwa [pongs_cons_of_none (l := .mailbox l) rfl hnot]

private theorem starts_ping {b address : Address} :
    (Step.ping (M := M) b address id isOpen).starts a = true ↔ b = a ∧ isOpen = true := by
  rw [Step.starts, Bool.and_eq_true_iff, decide_eq_true_iff]

/-- A fork that begins to wait has no answer. -/
private theorem Kept.ping {b address : Address} {id' : BitVec 64} (h : Kept w log)
    (hc : w.call (.ping b address id' isOpen) = some (w', o)) :
    Kept w' (⟨w, .ping b address id' isOpen, o⟩ :: log) := by
  intro fork id hwait
  obtain ⟨⟨-, hfork, -⟩, hc⟩ := ite_none_right_eq_some.mp hc
  -- for the other forks, and when the message is not sent
  have hother : ¬ (b = fork ∧ isOpen = true) →
      pongs fork (⟨w, .ping b address id' isOpen, o⟩ :: log) = pongs fork log := fun hnot =>
    pongs_cons_of_none (Bool.eq_false_iff.mpr (mt starts_ping.mp hnot))
      fun last => (some_ne_none (fork, last)).symm
  cases isOpen with
  | true =>
    obtain rfl : _ = w' := congrArg Prod.fst (some.inj hc)
    dsimp only at hwait ⊢
    rw [SubnetContext.sendTo_forkEntries]
    by_cases hb : fork = b
    · subst hb
      obtain ⟨entry, hentry⟩ := isSome_iff_exists.mp hfork
      refine ⟨entry.lastPingReceived, congrArg (Option.map _) hentry, fun last hhead => ?_⟩
      rw [pongs, if_pos (starts_ping.mpr ⟨rfl, rfl⟩)] at hhead
      contradiction
    · rw [Function.update_of_ne hb] at hwait
      rw [hother fun hstarts => hb hstarts.1.symm]
      exact h fork id hwait
  | false =>
    obtain rfl : _ = w' := congrArg Prod.fst (some.inj hc)
    dsimp only
    rw [hother fun hstarts => Bool.false_ne_true hstarts.2, SubnetContext.sendTo_forkEntries]
    exact h fork id hwait

/-- **A step keeps the number of the last answer.** -/
theorem Kept.call (h : Kept w log) (hc : w.call l = some (w', o)) : Kept w' (⟨w, l, o⟩ :: log) := by
  cases l with
  | mailbox l => exact h.mailbox hc
  | ping b address id' isOpen => exact h.ping hc
  | timeout b =>
    obtain ⟨-, heq⟩ := ite_none_right_eq_some.mp hc
    obtain rfl : _ = w' := congrArg Prod.fst (some.inj heq)
    exact fun fork id hwait => h fork id (waiting_of_settle hwait)
  | cancel b =>
    obtain ⟨-, heq⟩ := ite_none_right_eq_some.mp hc
    obtain rfl : _ = w' := congrArg Prod.fst (some.inj heq)
    exact fun fork id hwait => h fork id (waiting_of_settle hwait)

private theorem check_eq_true_iff (hwait : w.waiting fork = some id) :
    w.check fork = true ↔ pingSlot w.context.forkEntries fork = some (some id) := by
  rw [check, hwait, pingSlot]
  cases w.context.forkEntries.lookup fork with
  | none | some entry => simp

/-- What a check of the pongs has looked at. -/
private theorem resume_checked {inlets : Option Inlets} {l : Label M}
    (h : w.resume inlets l = (w', .checked fork passed)) :
    (∃ contended, l = .stop contended) ∧ passed = w.check fork ∧
      (passed = true → w' = w.settle fork) := by
  cases l with
  | stop contended =>
    refine ⟨⟨contended, rfl⟩, ?_⟩
    cases inlets with
    | none => exact Outcome.noConfusion (congrArg Prod.snd h)
    | some i =>
      rw [resume] at h
      split at h
      · split at h
        case isTrue hcheck =>
          obtain ⟨rfl, hchecked⟩ := Prod.mk.inj h
          obtain ⟨rfl, rfl⟩ := Outcome.checked.inj hchecked
          exact ⟨hcheck.symm, fun _ => rfl⟩
        case isFalse hcheck =>
          obtain ⟨rfl, hchecked⟩ := Prod.mk.inj h
          obtain ⟨rfl, rfl⟩ := Outcome.checked.inj hchecked
          exact ⟨(Bool.eq_false_of_not_eq_true hcheck).symm, fun hfalse => by contradiction⟩
      · exact Outcome.noConfusion (congrArg Prod.snd h)
  | fail reason =>
    cases inlets with
    | none => exact Outcome.noConfusion (congrArg Prod.snd h)
    | some i =>
      rw [resume] at h
      split at h <;> exact Outcome.noConfusion (congrArg Prod.snd h)
  | _ => exact Outcome.noConfusion (congrArg Prod.snd h)

/-- The step in which `ping` looks at the number, and what it sees. -/
private theorem checked_of_call (hc : w.call l = some (w', .checked fork passed))
    (hwait : w.waiting fork = some id) (hfork : (w.context.forkEntries.lookup fork).isSome = true) :
    (passed = true ↔ pingSlot w.context.forkEntries fork = some (some id)) ∧
      (passed = true → w'.waiting fork = none) := by
  cases l with
  | mailbox l =>
    obtain ⟨-, context, marks, hcall, heq⟩ := mailbox_of_call hc
    obtain ⟨⟨contended, rfl⟩, rfl, hsettle⟩ := resume_checked heq
    have hslot : pingSlot context.forkEntries fork = pingSlot w.context.forkEntries fork :=
      SubnetContext.pingSlot_of_call hcall (by simp) hfork
    rw [← hslot]
    refine ⟨check_eq_true_iff hwait, fun hpassed => ?_⟩
    rw [hsettle hpassed, settle_waiting, if_pos rfl]
  | ping b address id' isOpen =>
    obtain ⟨-, hc⟩ := ite_none_right_eq_some.mp hc
    cases isOpen <;> exact Outcome.noConfusion (congrArg Prod.snd (some.inj hc))
  | timeout b =>
    obtain ⟨-, heq⟩ := ite_none_right_eq_some.mp hc
    exact Outcome.noConfusion (congrArg Prod.snd (some.inj heq))
  | cancel b =>
    obtain ⟨-, heq⟩ := ite_none_right_eq_some.mp hc
    exact Outcome.noConfusion (congrArg Prod.snd (some.inj heq))

/-- **What a ping has, it sees, unless another answer comes after it.** A fork waits in `ping` and
looks at the number of the last answer. If the answer to its ping has been taken from the channel
since it began to wait, `ping` sees it and returns: this is so if and only if the answer is also the
last one that has been taken for the fork. -/
theorem check_iff {context : SubnetContext M} {s : Logged (Pinger M) (Step M) Outcome}
    {passed : Bool}
    (hruns : Reaches (History.step call) (fun _ _ => True) (.start (init context)) s)
    (hwait : s.state.waiting fork = some id)
    (hcheck : s.state.call l = some (w', .checked fork passed)) :
    (id ∈ pongs fork s.log → passed = true ∧ w'.waiting fork = none) ↔
      (id ∈ pongs fork s.log → (pongs fork s.log).head? = some id) := by
  have hkept : Kept s.state s.log := by
    refine log_invariant hruns (fun _ _ h => ?_) fun h _ hc => h.call hc
    exact absurd h (some_ne_none _).symm
  obtain ⟨slot, hslot, hlast⟩ := hkept fork id hwait
  obtain ⟨hpassed, hsettled⟩ := checked_of_call hcheck hwait (isSome_of_pingSlot hslot)
  refine forall_congr' fun hmem => ?_
  -- an answer has been taken, so that the entry has the number of the last one
  obtain ⟨last, hhead⟩ : ∃ last, (pongs fork s.log).head? = some last :=
    isSome_iff_exists.mp (List.isSome_head?.mpr (List.ne_nil_of_mem hmem))
  rw [and_iff_left_of_imp hsettled, hpassed, hslot, hlast last hhead, hhead, some_inj]

/-- Another fork takes the answers, and `ping` returns. -/
theorem check_two_forks :
    ∃ (s : Logged (Pinger ℕ) (Step ℕ) Outcome) (w' : Pinger ℕ),
      Reaches (History.step call) (fun _ _ => True) (.start (init (.init actorNet ⟨16#64⟩ 2))) s ∧
        s.state.call (.mailbox (.stop false)) = some (w', .checked ⟨17#64⟩ true) ∧
        pongs ⟨17#64⟩ s.log = [2#64, 1#64] ∧ w'.waiting ⟨17#64⟩ = none := by
  obtain ⟨s, hreach, hwait, hpongs, w', hcheck⟩ :
      ∃ s : Logged (Pinger ℕ) (Step ℕ) Outcome, Reaches (History.step call) (fun _ _ => True)
          (.start (init (.init actorNet ⟨16#64⟩ 2))) s ∧
        s.state.waiting ⟨17#64⟩ = some 2#64 ∧ pongs ⟨17#64⟩ s.log = [2#64, 1#64] ∧
        ∃ w', s.state.call (.mailbox (.stop false)) = some (w', .checked ⟨17#64⟩ true) :=
    ⟨_, reaches_get
    [.mailbox (.fork ⟨17#64⟩), .ping ⟨17#64⟩ ⟨64#64⟩ 1#64 true, .timeout ⟨17#64⟩,
      .ping ⟨17#64⟩ ⟨64#64⟩ 2#64 true,
      .mailbox (.send 0 ⟨17#64⟩ .priority ⟨15, true, .ping none 1#64⟩ true),
      .mailbox (.send 0 ⟨17#64⟩ .priority ⟨15, true, .ping none 2#64⟩ true),
      .mailbox (.enter ⟨16#64⟩ true), .mailbox (.turn true), .mailbox (.turn true),
      .mailbox (.stop false), .mailbox (.stop false), .mailbox (.enter ⟨17#64⟩ false),
      .mailbox (.stop false)] (by decide), by decide, by decide, _, rfl⟩
  have hsees := (check_iff hreach hwait hcheck).mpr fun _ => by rw [hpongs]; rfl
  exact ⟨s, w', hreach, hcheck, hpongs, (hsees (by rw [hpongs]; decide)).2⟩

/-- **An answer that is missed.** A fork has given up a ping, and waits for the answer to the next.
Both answers come, the late one last. They are taken in one call of `process_inlets`, and `ping`
does not see its own. -/
theorem pong_overwritten :
    ∃ (s : Logged (Pinger ℕ) (Step ℕ) Outcome) (w' : Pinger ℕ),
      Reaches (History.step call) (fun _ _ => True) (.start (init (.init actorNet ⟨16#64⟩ 2))) s ∧
        s.state.waiting ⟨16#64⟩ = some 2#64 ∧ pongs ⟨16#64⟩ s.log = [1#64, 2#64] ∧
        s.state.call (.mailbox (.stop false)) = some (w', .checked ⟨16#64⟩ false) :=
  ⟨_, _, reaches_get
    [.ping ⟨16#64⟩ ⟨64#64⟩ 1#64 true, .timeout ⟨16#64⟩, .ping ⟨16#64⟩ ⟨64#64⟩ 2#64 true,
      .mailbox (.send 0 ⟨16#64⟩ .priority ⟨15, true, .ping none 2#64⟩ true),
      .mailbox (.send 0 ⟨16#64⟩ .priority ⟨15, true, .ping none 1#64⟩ true),
      .mailbox (.enter ⟨16#64⟩ false), .mailbox (.turn true), .mailbox (.turn true),
      .mailbox (.stop false)] (by decide), by decide, by decide, rfl⟩

end Pinger

end Mailbox

end Mm1
