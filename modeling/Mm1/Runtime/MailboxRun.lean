import Mm1.Runtime.MailboxQueue

/-!
# Runs of a mailbox

What the forks of an actor receive over a whole run, with any number of forks and bound subnets, and
with any interleaving of those who send with the forks that move the messages.

* `trace`: all that a run has done to messages;
* `Inv`, `ForkInv`: what holds of a mailbox and of each of its forks, with the log of the run;
* `Drained`: what may be in the priority channel when a regular message is received;
* `received_exact_of_runs`: for each fork and each lane what is received, followed by what is
  waiting, is what was accepted for the fork.
-/

namespace Mm1

open Option List AddressRange Mailbox.SubnetContext History Roster

namespace Mailbox

variable {M : Type} {m : Message M} {lane : Lane} {isOpen : Bool}

/-- A step that was made. -/
abbrev Call (M : Type) := Event (SubnetContext M) (Label M) (List (Mark M))

/-- What was done to messages, the earliest first. -/
def trace (log : List (Call M)) : List (Mark M) := collect Event.output log

/-- The mark of a fork that is there from now on. -/
def Mark.creates (a : Address) : Mark M → Bool
  | .created fork => fork = a
  | _ => false

/-- The part of a run since a fork is there. -/
def tenure (a : Address) (log : List (Call M)) : List (Call M) :=
  log.takeWhile fun e => !e.output.any (Mark.creates a)

/-- The part of a run until the fork was there. -/
def prior (a : Address) (log : List (Call M)) : List (Call M) :=
  log.dropWhile fun e => !e.output.any (Mark.creates a)

/-- What is sent to an address is for the fork: it is the address of the fork, to which nothing was
sent before the fork was there, or one in a subnet that only the fork has ever bound. -/
def IsFor (a : Address) (log : List (Call M)) (dst : Address) : Prop :=
  dst = a ∧ (∀ m ∈ accepted (trace (prior a log)), m.dst ≠ a) ∨
    (∃ b ∈ binds (trace (tenure a log)), b.1 = a ∧ b.2.Mem dst) ∧
      (∀ b ∈ binds (trace (tenure a log)), b.2.Mem dst → b.1 = a) ∧
      ∀ b ∈ binds (trace (prior a log)), ¬ b.2.Mem dst

instance (a : Address) (log : List (Call M)) (dst : Address) : Decidable (IsFor a log dst) :=
  inferInstanceAs (Decidable (_ ∧ _ ∨ _ ∧ _ ∧ _))

section Trace

variable {log log' : List (Call M)} {e : Call M} {a : Address}

@[simp] theorem trace_nil : trace ([] : List (Call M)) = [] := rfl

@[simp] theorem trace_cons : trace (e :: log) = trace log ++ e.output := collect_cons

private theorem trace_append : trace (log ++ log') = trace log' ++ trace log := collect_append

private theorem any_creates {marks : List (Mark M)} :
    marks.any (Mark.creates a) = true ↔ .created a ∈ marks := by
  rw [List.any_eq_true]
  constructor
  · rintro ⟨mark, hmark, hcreates⟩
    cases mark with
    | created fork =>
      obtain rfl : fork = a := by simpa [Mark.creates] using hcreates
      exact hmark
    | _ => simp [Mark.creates] at hcreates
  · intro hmark
    exact ⟨_, hmark, by simp [Mark.creates]⟩

private theorem tenure_cons_of_mem (h : .created a ∈ e.output) : tenure a (e :: log) = [] := by
  rw [tenure, takeWhile_cons_of_neg]
  simpa using any_creates.mpr h

private theorem tenure_cons (h : .created a ∉ e.output) :
    tenure a (e :: log) = e :: tenure a log := by
  rw [tenure, takeWhile_cons_of_pos]
  · rfl
  · simpa using mt any_creates.mp h

private theorem tenure_append_prior : tenure a log ++ prior a log = log :=
  takeWhile_append_dropWhile ..

end Trace

/-- The fork does not end or bind in this step. -/
def Label.Spares (a : Address) : Label M → Prop
  | .drop b => b ≠ a
  | .bind b _ _ _ => b ≠ a
  | _ => True

namespace SubnetContext

/-! ### Forks and bindings -/

section Moves

variable {s s' : SubnetContext M} {l : Label M} {marks : List (Mark M)} {a : Address}

section Moved

variable (h : Moves s l s' marks)

include h

private theorem subnetAddress_of_moves : s'.subnetAddress = s.subnetAddress := by
  cases h with
  | lose | receive => exact release_subnetAddress ..
  | drop => exact (drop_spec ..).2.2.2.1
  | _ => rfl

/-- New subnets are those that are bound. -/
private theorem subnets_of_moves : ∀ r ∈ s'.subnets, r ∈ s.subnets ∨ ∃ b, (b, r) ∈ binds marks := by
  intro r hr
  cases h with
  | @bind fork =>
    rw [subnets, map_append, mem_append] at hr
    refine hr.imp_right fun hnew => ⟨fork, ?_⟩
    obtain rfl := mem_singleton.mp hnew
    exact mem_singleton_self _
  | @acceptRegular n =>
    have hsame := acquire_subnets s n
    exact .inl (hsame ▸ hr)
  | lose =>
    rw [release_subnets] at hr
    exact .inl hr
  | receive =>
    rw [pop, release_subnets] at hr
    exact .inl hr
  | drop =>
    rw [(drop_spec ..).2.2.2.2] at hr
    exact .inl hr
  | _ => exact .inl hr

private theorem accepted_of_moves (hm : m ∈ accepted marks) : ∃ n, s.Reachable n m.dst := by
  cases h with
  | acceptPriority hreach | acceptRegular hreach | answer hrx hping hreach =>
    obtain rfl : m = _ := by simpa [accepted] using hm
    exact ⟨_, hreach⟩
  | drop => simp at hm
  | _ => simp [accepted] at hm

/-- What is accepted was sent, or is the answer to a ping. -/
private theorem sent_of_moves (hm : m ∈ accepted marks) :
    (∃ n dst lane isOpen, l = .send n dst lane m.envelope isOpen) ∨
      ∃ id, m.envelope.content = .ping none id := by
  cases h with
  | acceptPriority | acceptRegular =>
    obtain rfl : m = _ := by simpa [accepted] using hm
    exact .inl ⟨_, _, _, _, rfl⟩
  | answer hrx hping hreach hpong =>
    obtain rfl : m = _ := by simpa [accepted] using hm
    exact .inr ⟨_, hpong⟩
  | drop => simp at hm
  | _ => simp [accepted] at hm

/-- What holds of all that is sent, and of pongs, holds of all that is in the mailbox. -/
theorem held_of_moves {P : Content M → Prop} (hold : ∀ m ∈ s.held, P m.envelope.content)
    (hsent : ∀ n dst lane envelope isOpen, l = .send n dst lane envelope isOpen →
      P envelope.content) (hpong : ∀ id, P (.ping none id)) :
    ∀ m ∈ s'.held, P m.envelope.content := by
  classical
  intro m hm
  have hcount := countP_held (fun m' => decide (m' = m)) h
  have hpos : 0 < s'.held.countP fun m' => decide (m' = m) :=
    countP_pos_iff.mpr ⟨m, hm, decide_eq_true rfl⟩
  by_cases hmem : m ∈ s.held
  · exact hold m hmem
  · -- it was not there before, so that it was accepted
    have hzero : (s.held.countP fun m' => decide (m' = m)) = 0 :=
      countP_eq_zero.mpr fun m' hm' heq => hmem (of_decide_eq_true heq ▸ hm')
    obtain ⟨m', hm', heq⟩ : ∃ m' ∈ accepted marks, decide (m' = m) = true :=
      countP_pos_iff.mp (by omega)
    obtain rfl := of_decide_eq_true heq
    rcases sent_of_moves h hm' with ⟨n, dst, lane, isOpen, hl⟩ | ⟨id, hcontent⟩
    · exact hsent n dst lane m'.envelope isOpen hl
    · rw [hcontent]
      exact hpong id

/-- A fork that was not created was there. -/
private theorem alive_of_moves (halive : (s'.forkEntries.lookup a).isSome = true)
    (hnew : .created a ∉ marks) : (s.forkEntries.lookup a).isSome = true := by
  cases h with
  | lose => rwa [release_forkEntries] at halive
  | receive =>
    rw [pop, release_forkEntries] at halive
    exact (isSome_lookup_modify ..).symm.trans halive
  | absorb | deliver => exact (isSome_lookup_modify ..).symm.trans halive
  | @create b =>
    have hne : a ≠ b := by
      rintro rfl
      exact hnew (mem_singleton_self _)
    rwa [Roster.lookup_put, if_neg hne] at halive
  | drop =>
    rw [drop_forkEntries] at halive
    exact (isSome_lookup_erase.mp halive).2
  | _ => exact halive

/-- A new fork has nothing. -/
private theorem created_of_moves (hnew : .created a ∈ marks) :
    s.forkEntries.lookup a = none ∧ s'.boundSubnets = s.boundSubnets ∧
      ∀ lane, s'.inboxOf a lane = [] := by
  cases h with
  | create _ _ hnone =>
    obtain rfl : a = _ := by simpa using hnew
    refine ⟨hnone, rfl, fun lane => ?_⟩
    simp [inboxOf, Roster.lookup_put, ForkEntry.default]
  | _ => simp at hnew

/-- What a step gives to a fork: nothing, or one message to the fork that has called `recv`. A
regular message is given only to a fork without a priority message. -/
theorem received_cases :
    (∀ fork lane m, .received fork lane m ∉ marks) ∨
      ∃ i lane m entry, marks = [.received i.fork lane m] ∧ s.inlets = some i ∧
        i.lane = .regular ∧ s.forkEntries.lookup i.fork = some entry ∧ m ∈ entry.inbox lane ∧
        (lane = .regular → entry.inbox .priority = []) ∧ s'.inlets = none := by
  cases h with
  | receive hinlets hlane hself hfork hinbox hfirst =>
    subst hself
    exact .inr ⟨_, _, _, _, rfl, hinlets, hlane, hfork, by simp [hinbox], hfirst,
      release_inlets _ _⟩
  | _ => exact .inl fun fork lane m hmark => by simp at hmark

end Moved

/-- The subnets of a fork. -/
private theorem boundSubnets_of_moves (hwf : s.Wf) (h : Moves s l s' marks)
    (halive : (s'.forkEntries.lookup a).isSome = true) (r : AddressRange) :
    (r, a) ∈ s'.boundSubnets ↔ (r, a) ∈ s.boundSubnets ∨ (a, r) ∈ binds marks := by
  cases h with
  | lose | receive => simp [binds, pop]
  | bind =>
    rw [OrderedMap.mem_insert]
    simp [binds, or_comm, and_comm]
  | @drop fork entry hfork =>
    rw [drop_forkEntries] at halive
    have hne := (isSome_lookup_erase.mp halive).1
    rw [(drop_spec ..).2.2.1, (hwf.unbind fork).2, binds_discarded]
    simp [hne]
  | _ => simp [binds, push, acquire]

/-! ### What there is for a fork -/

/-- What is waiting for a fork on a lane. -/
def content (s : SubnetContext M) (a : Address) (lane : Lane) : List (Message M) :=
  s.inboxOf a lane ++ (s.rx lane).filter fun m => s.route m.dst = a && ordinary lane m

/-- The addresses of a fork. -/
private theorem Wf.route_eq_iff (hwf : s.Wf) (halive : (s.forkEntries.lookup a).isSome = true)
    {dst : Address} :
    s.route dst = a ↔ dst = a ∨ ∃ r, (r, a) ∈ s.boundSubnets ∧ r.Mem dst := by
  constructor
  · rintro rfl
    exact (s.route_cases dst).imp_left Eq.symm
  · rintro (rfl | ⟨r, hbound, hmem⟩)
    · exact hwf.route_of_own (hwf.forks dst halive)
    · exact hwf.route_of_bound hbound hmem

/-- A fork that is spared stays. -/
theorem alive_after (h : Moves s l s' marks) (hl : l.Spares a)
    (halive : (s.forkEntries.lookup a).isSome = true) :
    (s'.forkEntries.lookup a).isSome = true := by
  cases h with
  | lose => rwa [release_forkEntries]
  | receive =>
    rw [pop, release_forkEntries]
    exact (isSome_lookup_modify ..).trans halive
  | absorb | deliver => exact (isSome_lookup_modify ..).trans halive
  | create =>
    rw [Roster.lookup_put]
    split
    · rfl
    · exact halive
  | drop =>
    rw [drop_forkEntries]
    exact isSome_lookup_erase.mpr ⟨Ne.symm hl, halive⟩
  | _ => exact halive

/-- Who gets an address. -/
theorem route_of_moves (hwf : s.Wf) (h : Moves s l s' marks) (hl : l.Spares a)
    (halive : (s.forkEntries.lookup a).isSome = true) (dst : Address) :
    s'.route dst = a ↔ s.route dst = a := by
  have halive' := alive_after h hl halive
  have hnone : ∀ r, (a, r) ∉ binds marks := by
    intro r hr
    cases h with
    | bind =>
      obtain ⟨rfl, -⟩ := Prod.mk.inj (mem_singleton.mp hr)
      exact hl rfl
    | _ => simp [binds] at hr
  rw [(hwf.moves h).route_eq_iff halive', hwf.route_eq_iff halive]
  simp only [boundSubnets_of_moves hwf h halive', hnone, or_false]

/-- No inbox has a ping on the priority lane. -/
def Pingless (s : SubnetContext M) : Prop :=
  ∀ a lane, ∀ m ∈ s.inboxOf a lane, ordinary lane m = true

/-- No ping gets into an inbox. -/
theorem Pingless.moves (hold : s.Pingless) (h : Moves s l s' marks) : s'.Pingless := by
  intro a lane m hm
  cases hlook : s'.forkEntries.lookup a with
  | none => simp [inboxOf, hlook] at hm
  | some entry =>
    by_cases hnew : .created a ∈ marks
    · rw [(created_of_moves h hnew).2.2 lane] at hm
      exact absurd hm not_mem_nil
    · have hinbox := inbox_of_moves h (isSome_iff_exists.mpr ⟨entry, hlook⟩) hnew lane
      have hin : m ∈ s.inboxOf a lane ++ takenFor a lane marks := by
        rw [hinbox]
        exact mem_append_right _ hm
      rcases mem_append.mp hin with hin | htaken
      · exact hold a lane m hin
      · exact ((taken_of_moves h (taken_of_mem htaken)).2.2 (by simp)).2

/-- **For a fork, the mailbox is a queue on each lane.** -/
theorem content_of_moves (hwf : s.Wf) (h : Moves s l s' marks) (hl : l.Spares a)
    (halive : (s.forkEntries.lookup a).isSome = true) (lane : Lane) :
    s.content a lane ++
        (acceptedOn lane marks).filter (fun m => s.route m.dst = a && ordinary lane m) =
      receivedBy a lane marks ++ s'.content a lane := by
  have hnew : .created a ∉ marks := by
    intro hnew
    rw [(created_of_moves h hnew).1] at halive
    contradiction
  have htaken : (takenOn lane marks).filter (fun m => s.route m.dst = a && ordinary lane m) =
      takenFor a lane marks := by
    refine (filter_takenOn fun m fork hmark hp => ?_).trans (filter_eq_self.mpr fun m hm => ?_)
    · have hroute : s.route m.dst = a := by simpa using hp
      obtain ⟨-, hsome, hfork⟩ := taken_of_moves h hmark
      rw [hroute] at hsome hfork
      constructor
      · exact hsome halive
      · rintro rfl
        exact (hfork (by simp)).2
    · have hfork := ((taken_of_moves h (taken_of_mem hm)).2.2 (by simp)).1
      exact decide_eq_true (some.inj hfork).symm
  have hrx := congrArg (List.filter fun m => s.route m.dst = a && ordinary lane m)
    (rx_of_moves h lane)
  have hinbox := inbox_of_moves h (alive_after h hl halive) hnew lane
  rw [filter_append, filter_append, htaken] at hrx
  simp only [content, route_of_moves hwf h hl halive]
  rw [append_assoc, hrx, ← append_assoc, hinbox, append_assoc]

end Moves

end SubnetContext

/-! ### What holds in every run -/

/-- What holds of a mailbox after the steps of a log. -/
structure Inv (subnet : NetAddress) (s : SubnetContext M) (log : List (Call M)) : Prop where
  wf : s.Wf
  subnetAddress : s.subnetAddress = subnet
  balanced : s.Balanced
  queue : ∀ lane, acceptedOn lane (trace log) = takenOn lane (trace log) ++ s.rx lane
  kept : ∀ q, (accepted (trace log)).countP q = (gone (trace log)).countP q + s.held.countP q
  nodes : ∀ r ∈ s.subnets, r = .ofNet subnet ∨ ∃ b, (b, r) ∈ binds (trace log)
  covered : ∀ m ∈ accepted (trace log),
    (ofNet subnet).Mem m.dst ∨ ∃ b ∈ binds (trace log), b.2.Mem m.dst

/-- What holds of a fork that is there after the steps of a log. -/
structure ForkInv (a : Address) (s : SubnetContext M) (log : List (Call M)) : Prop where
  inbox : ∀ lane, takenFor a lane (trace (tenure a log)) =
    receivedBy a lane (trace (tenure a log)) ++ s.inboxOf a lane
  bound : ∀ r, (r, a) ∈ s.boundSubnets ↔ (a, r) ∈ binds (trace (tenure a log))
  owned : ∀ lane, ∀ m ∈ takenFor a lane (trace (tenure a log)),
    m.dst = a ∨ ∃ b ∈ binds (trace (tenure a log)), b.1 = a ∧ b.2.Mem m.dst
  alive : ∀ e ∈ tenure a log, (e.before.forkEntries.lookup a).isSome = true

section Invariants

variable {s s' : SubnetContext M} {marks : List (Mark M)} {log : List (Call M)} {l : Label M}
  {subnet : NetAddress} {main a : Address} {size : ℕ}

theorem held_init : (init subnet main size : SubnetContext M).held = [] := by
  rw [held, init]
  dsimp only
  rw [inboxes_put Roster.lookup_empty]
  rfl

private theorem inboxOf_init (lane : Lane) :
    (init subnet main size : SubnetContext M).inboxOf a lane = [] := by
  rw [inboxOf, init]
  dsimp only
  rw [Roster.lookup_put]
  split <;> rfl

/-- The invariant at the start. -/
theorem inv_init (h : (ofNet subnet).Mem main) :
    Inv subnet (.init subnet main size : SubnetContext M) [] where
  wf := wf_init h
  subnetAddress := rfl
  balanced := by
    intro n
    rw [held_init]
    cases n with
    | zero | succ n => rfl
  queue _ := rfl
  kept q := by
    rw [held_init]
    rfl
  nodes r hr := .inl (mem_singleton.mp hr)
  covered m hm := absurd hm not_mem_nil

/-- A step keeps the invariant of the run. -/
private theorem Inv.step (h : Inv subnet s log) (hmove : SubnetContext.Moves s l s' marks) :
    Inv subnet s' (⟨s, l, marks⟩ :: log) where
  wf := h.wf.moves hmove
  subnetAddress := (subnetAddress_of_moves hmove).trans h.subnetAddress
  balanced := h.balanced.moves h.wf hmove
  queue lane := by
    rw [trace_cons, acceptedOn_append, takenOn_append, h.queue lane, append_assoc,
      append_assoc, rx_of_moves hmove]
  kept q := by
    have hkept := h.kept q
    have hheld := countP_held q hmove
    rw [trace_cons, accepted_append, gone_append, countP_append, countP_append]
    dsimp only
    omega
  nodes := by
    intro r hr
    rw [trace_cons, binds_append]
    rcases subnets_of_moves hmove r hr with hold | ⟨b, hb⟩
    · exact (h.nodes r hold).imp_right fun ⟨b, hb⟩ => ⟨b, mem_append_left _ hb⟩
    · exact .inr ⟨b, mem_append_right _ hb⟩
  covered := by
    intro m hm
    have hmono : ∀ {dst : Address}, (∃ b ∈ binds (trace log), b.2.Mem dst) →
        ∃ b ∈ binds (trace (⟨s, l, marks⟩ :: log)), b.2.Mem dst := by
      rintro dst ⟨b, hb, hmem⟩
      rw [trace_cons, binds_append]
      exact ⟨b, mem_append_left _ hb, hmem⟩
    rw [trace_cons, accepted_append] at hm
    rcases mem_append.mp hm with hold | hnew
    · exact (h.covered m hold).imp_right hmono
    · obtain ⟨n, hreach⟩ := accepted_of_moves hmove hnew
      obtain ⟨r, hr, hmem⟩ := reachable_iff.mp hreach
      rcases h.nodes r (mem_of_getElem? hr) with rfl | ⟨b, hb⟩
      · exact .inl hmem
      · exact .inr (hmono ⟨(b, r), hb, hmem⟩)

private theorem forkInv_init (a : Address) :
    ForkInv a (.init subnet main size : SubnetContext M) [] where
  inbox lane := by
    rw [inboxOf_init]
    rfl
  bound r := by simp [init, tenure, binds]
  owned lane m hm := absurd hm not_mem_nil
  alive e he := absurd he not_mem_nil

/-- A step keeps the invariant of a fork. -/
private theorem ForkInv.step (hwf : s.Wf)
    (h : (s.forkEntries.lookup a).isSome = true → ForkInv a s log)
    (hmove : SubnetContext.Moves s l s' marks) (halive : (s'.forkEntries.lookup a).isSome = true) :
    ForkInv a s' (⟨s, l, marks⟩ :: log) := by
  by_cases hnew : .created a ∈ marks
  · -- a new fork: nothing of what the log has is its own
    obtain ⟨hnone, hbound, hinbox⟩ := created_of_moves hmove hnew
    have hnil : tenure a (⟨s, l, marks⟩ :: log) = [] := tenure_cons_of_mem hnew
    refine ⟨?_, ?_, ?_, ?_⟩
    · intro lane
      rw [hnil, hinbox lane]
      rfl
    · intro r
      rw [hnil, hbound]
      refine iff_of_false (fun hmem => ?_) not_mem_nil
      have hsome := hwf.binders _ hmem
      rw [hnone] at hsome
      contradiction
    · rw [hnil]
      exact fun lane m hm => absurd hm not_mem_nil
    · rw [hnil]
      exact fun e he => absurd he not_mem_nil
  · have hold := alive_of_moves hmove halive hnew
    have hinv := h hold
    have hbound := boundSubnets_of_moves hwf hmove halive
    have hcons : tenure a (⟨s, l, marks⟩ :: log) = ⟨s, l, marks⟩ :: tenure a log := tenure_cons hnew
    refine ⟨?_, ?_, ?_, ?_⟩
    · intro lane
      rw [hcons, trace_cons, takenFor_append, receivedBy_append, hinv.inbox lane,
        append_assoc, append_assoc, inbox_of_moves hmove halive hnew]
    · intro r
      rw [hcons, trace_cons, binds_append, mem_append, hbound r, hinv.bound r]
    · intro lane m hm
      rw [hcons, trace_cons, takenFor_append] at hm
      rw [hcons, trace_cons, binds_append]
      rcases mem_append.mp hm with hm | hm
      · exact (hinv.owned lane m hm).imp_right fun ⟨b, hb, hmem⟩ =>
          ⟨b, mem_append_left _ hb, hmem⟩
      · have hroute := ((taken_of_moves hmove (taken_of_mem hm)).2.2 (by simp)).1
        have hroute := some.inj hroute
        rcases s.route_cases m.dst with hself | ⟨r, hr, hmem⟩
        · exact .inl (hself.symm.trans hroute.symm)
        · rw [← hroute] at hr
          exact .inr ⟨(a, r), mem_append_left _ ((hinv.bound r).mp hr), rfl, hmem⟩
    · rw [hcons]
      intro e he
      rcases mem_cons.mp he with rfl | he
      · exact hold
      · exact hinv.alive e he

end Invariants

/-! ### The priority channel -/

/-- The end of a loop of `process_inlets`. -/
def Label.stops : Label M → Bool
  | .stop _ => true
  | _ => false

/-- The part of a run since a loop of `process_inlets` has ended. -/
def sinceStop (log : List (Call M)) : List (Call M) := log.takeWhile fun e => !e.label.stops

/-- Once the priority channel was found empty, what is in it has come later. -/
def Drained (s : SubnetContext M) (log : List (Call M)) : Prop :=
  ∀ i, s.inlets = some i → i.lane = .regular → i.drained = true →
    s.rx .priority = acceptedOn .priority (trace (sinceStop log))

section Drained

variable {s s' : SubnetContext M} {marks : List (Mark M)} {log : List (Call M)} {l : Label M}

/-- A send takes nothing. -/
theorem send_frame {n : ℕ} {dst : Address} {envelope : Envelope M} :
    (s.send n dst lane envelope isOpen).1.inlets = s.inlets ∧
      takenOn .priority (s.send n dst lane envelope isOpen).2 = [] := by
  cases lane with
  | priority =>
    rw [send]
    split <;> exact ⟨rfl, rfl⟩
  | regular =>
    rw [send]
    split
    · exact ⟨rfl, rfl⟩
    · split <;> exact ⟨rfl, rfl⟩

/-- What a turn leaves as it is. -/
private theorem turn_frame (h : s.turn lane isOpen = some (s', marks)) :
    s'.inlets = s.inlets ∧ (lane = .regular → takenOn .priority marks = []) := by
  rw [turn] at h
  split at h
  case h_1 => contradiction
  case h_2 m rest hrx =>
    have h := some.inj h
    rw [deliver.eq_def] at h
    dsimp only at h
    split at h
    case isFalse =>
      obtain ⟨rfl, rfl⟩ := Prod.mk.inj h
      exact ⟨release_inlets _ _, fun hlane => by simp [hlane, takenOn]⟩
    case isTrue =>
      split at h
      case h_1 replyTo pingId hping =>
        rw [sendTo] at h
        refine ⟨?_, fun hlane => Lane.noConfusion hlane⟩
        split at h
        · exact (congrArg (fun r => r.1.inlets) h).symm
        · exact (congrArg (fun r => r.1.inlets) h).symm.trans send_frame.1
      case h_2 =>
        exact ⟨(congrArg (fun r => r.1.inlets) h).symm, fun hlane => Lane.noConfusion hlane⟩
      case h_3 =>
        obtain ⟨rfl, rfl⟩ := Prod.mk.inj h
        exact ⟨rfl, fun hlane => by simp [hlane, takenOn]⟩

private theorem recv_inlets (s : SubnetContext M) (fork : Address) :
    (s.recv fork).1.inlets = s.inlets := by
  rw [recv]
  split
  · rfl
  · split <;> simp [pop, release_inlets]

private theorem bind_inlets (s : SubnetContext M) (fork : Address) (bindTo : NetAddress) (size : ℕ)
    (granted : Bool) : (s.bind fork bindTo size granted).1.inlets = s.inlets := by
  rw [SubnetContext.bind]
  split
  · rfl
  · split
    · split <;> rfl
    · rfl

private theorem drop_inlets (s : SubnetContext M) (fork : Address) (entry : ForkEntry M) :
    (s.drop fork entry).1.inlets = s.inlets := by
  have hall : ∀ (messages : List (Message M)) (t : SubnetContext M),
      (messages.foldl release t).inlets = t.inlets := by
    intro messages
    induction messages with
    | nil => exact fun _ => rfl
    | cons m messages ih => exact fun t => (ih (t.release m)).trans (t.release_inlets m)
  rw [SubnetContext.drop]
  dsimp only
  split
  · exact hall _ _
  · exact hall _ _

/-- What a step does to `process_inlets`: it goes on, ends, begins, or comes to its second loop. -/
private theorem inlets_cases (hcall : s.call l = some (s', marks)) :
    (s'.inlets = s.inlets ∧ l.stops = false ∧
        ∀ i, s.inlets = some i → i.lane = .regular → takenOn .priority marks = []) ∨
      s'.inlets = none ∨
      (∃ fork receives, l = .enter fork receives ∧
        s'.inlets = some ⟨fork, receives, .priority, false⟩) ∨
      ∃ i contended, l = .stop contended ∧ s.inlets = some i ∧
        s'.inlets = some { i with lane := .regular, drained := !contended } ∧ marks = [] ∧
        s'.rx = s.rx ∧ (contended = false → s.rx .priority = []) := by
  cases l with
  | send n dst lane envelope isOpen =>
    rw [call] at hcall
    split at hcall
    case isFalse => contradiction
    case isTrue =>
      obtain ⟨rfl, rfl⟩ := Prod.mk.inj (some.inj hcall)
      exact .inl ⟨send_frame.1, rfl, fun _ _ _ => send_frame.2⟩
  | enter fork receives =>
    rw [call] at hcall
    split at hcall
    case isFalse => contradiction
    case isTrue =>
      obtain ⟨rfl, rfl⟩ := Prod.mk.inj (some.inj hcall)
      exact .inr (.inr (.inl ⟨fork, receives, rfl, rfl⟩))
  | turn isOpen =>
    obtain ⟨i, hinlets, hturn⟩ := bind_eq_some_iff.mp hcall
    obtain ⟨hsame, htaken⟩ := turn_frame hturn
    refine .inl ⟨hsame, rfl, fun j hj hlane => ?_⟩
    obtain rfl := some.inj (hinlets.symm.trans hj)
    exact htaken hlane
  | stop contended =>
    obtain ⟨i, hinlets, hstop⟩ := bind_eq_some_iff.mp hcall
    split at hstop
    case isFalse => contradiction
    case isTrue hok =>
      have hstop := some.inj hstop
      rw [stop] at hstop
      cases hlane : i.lane with
      | priority =>
        rw [hlane] at hstop hok
        obtain ⟨rfl, rfl⟩ := Prod.mk.inj hstop
        refine .inr (.inr (.inr ⟨i, contended, rfl, hinlets, rfl, rfl, rfl, fun hfalse => ?_⟩))
        exact isEmpty_iff.mp (hok.resolve_left (by simp [hfalse]))
      | regular =>
        rw [hlane] at hstop
        dsimp only at hstop
        split at hstop
        · have hframe := recv_inlets { s with inlets := none } i.fork
          rw [hstop] at hframe
          exact .inr (.inl hframe)
        · exact .inr (.inl (congrArg (fun r => r.1.inlets) hstop).symm)
  | fail reason =>
    obtain ⟨i, -, hfail⟩ := map_eq_some_iff.mp hcall
    exact .inr (.inl (congrArg (fun r => r.1.inlets) hfail).symm)
  | fork address =>
    rw [call] at hcall
    split at hcall
    case isFalse => contradiction
    case isTrue hok =>
      obtain ⟨rfl, rfl⟩ := Prod.mk.inj (some.inj hcall)
      exact .inr (.inl hok.1)
  | bind fork bindTo inboxSize granted =>
    rw [call] at hcall
    split at hcall
    case isFalse => contradiction
    case isTrue hok =>
      have hframe := bind_inlets s fork bindTo inboxSize granted
      rw [some.inj hcall] at hframe
      exact .inr (.inl (hframe.trans hok.1))
  | drop fork =>
    rw [call] at hcall
    split at hcall
    case isFalse => contradiction
    case isTrue hok =>
      obtain ⟨entry, -, hdrop⟩ := map_eq_some_iff.mp hcall
      have hframe := drop_inlets s fork entry
      rw [hdrop] at hframe
      exact .inr (.inl (hframe.trans hok))

/-- Whose `process_inlets` it is. -/
theorem fork_of_inlets (hcall : s.call l = some (s', marks)) {i : Inlets}
    (hi : s'.inlets = some i) :
    s.inlets.map Inlets.fork = some i.fork ∨ ∃ receives, l = .enter i.fork receives := by
  rcases inlets_cases hcall with ⟨hsame, -, -⟩ | hnone | ⟨fork, receives, rfl, hnew⟩ |
    ⟨j, contended, -, hj, hnew, -⟩
  · rw [← hsame, hi]
    exact .inl rfl
  · rw [hnone] at hi
    contradiction
  · obtain rfl := some.inj (hnew.symm.trans hi)
    exact .inr ⟨receives, rfl⟩
  · obtain rfl := some.inj (hnew.symm.trans hi)
    rw [hj]
    exact .inl rfl

/-- A step keeps `Drained`. -/
private theorem Drained.step (hwf : s.Wf) (h : Drained s log)
    (hcall : s.call l = some (s', marks)) : Drained s' (⟨s, l, marks⟩ :: log) := by
  intro i hi hlane hdrained
  rcases inlets_cases hcall with ⟨hsame, hstops, htaken⟩ | hnone | ⟨fork, receives, -, hnew⟩ |
    ⟨j, contended, rfl, -, hnew, rfl, hrx, hempty⟩
  · rw [hsame] at hi
    have hqueue := rx_of_moves (moves_of_call hwf hcall) .priority
    rw [htaken i hi hlane, nil_append, h i hi hlane hdrained] at hqueue
    rw [sinceStop, takeWhile_cons_of_pos (by simp [hstops]), trace_cons, acceptedOn_append]
    exact hqueue.symm
  · rw [hnone] at hi
    contradiction
  · obtain rfl := some.inj (hnew.symm.trans hi)
    contradiction
  · obtain rfl := some.inj (hnew.symm.trans hi)
    rw [hrx, hempty (by simpa using hdrained)]
    rfl

end Drained

/-! ### Runs -/

/-- A run of an actor subnet from its start. -/
def Runs (subnet : NetAddress) (main : Address) (size : ℕ)
    (s : Logged (SubnetContext M) (Label M) (List (Mark M))) : Prop :=
  Transition.Reaches (History.step call) (fun _ _ => True)
    (.start (.init subnet main size)) s

section Runs

variable {s : Logged (SubnetContext M) (Label M) (List (Mark M))} {subnet : NetAddress}
  {main a dst : Address} {size : ℕ} {e : Call M}

/-- The invariant, in a run. -/
theorem Runs.inv (hrun : Runs subnet main size s) (hmain : (ofNet subnet).Mem main) :
    Inv subnet s.state s.log :=
  log_invariant hrun (inv_init hmain) fun hinv _ hcall =>
    hinv.step (moves_of_call hinv.wf hcall)

/-- The invariant of a fork, in a run. -/
private theorem Runs.forkInv (hrun : Runs subnet main size s)
    (hmain : (ofNet subnet).Mem main)
    (halive : (s.state.forkEntries.lookup a).isSome = true) : ForkInv a s.state s.log := by
  have hinv := log_invariant hrun (P := fun s log => Inv subnet s log ∧
    ((s.forkEntries.lookup a).isSome = true → ForkInv a s log))
    ⟨inv_init hmain, fun _ => forkInv_init a⟩ fun hinv _ hcall => ?_
  · exact hinv.2 halive
  · have hmove := moves_of_call hinv.1.wf hcall
    exact ⟨hinv.1.step hmove, fun halive => ForkInv.step hinv.1.wf hinv.2 hmove halive⟩

/-- No ping is in an inbox. -/
theorem Runs.pingless (hrun : Runs subnet main size s)
    (hmain : (ofNet subnet).Mem main) : s.state.Pingless := by
  have hinv := log_invariant hrun (P := fun s log => Inv subnet s log ∧ s.Pingless)
    ⟨inv_init hmain, fun a lane m hm => ?_⟩ fun hinv _ hcall => ?_
  · exact hinv.2
  · rw [inboxOf_init] at hm
    exact absurd hm not_mem_nil
  · have hmove := moves_of_call hinv.1.wf hcall
    exact ⟨hinv.1.step hmove, hinv.2.moves hmove⟩

/-- The tenure of a fork at an earlier time. -/
private theorem tenure_suffix {log later mid : List (Call M)}
    (h : tenure a log = later ++ e :: mid) :
    log = later ++ e :: (mid ++ prior a log) ∧ tenure a (mid ++ prior a log) = mid := by
  refine ⟨?_, ?_⟩
  · have hall : tenure a log ++ prior a log = log := tenure_append_prior
    rw [h, append_assoc, cons_append] at hall
    exact hall.symm
  · have hmid : ∀ e' ∈ mid, (!e'.output.any (Mark.creates a)) = true := by
      intro e' he'
      have hmem : e' ∈ tenure a log := by
        rw [h]
        exact mem_append_right _ (mem_cons_of_mem _ he')
      exact mem_takeWhile_imp (p := fun e : Call M => !e.output.any (Mark.creates a)) hmem
    have hprior : (prior a log).takeWhile (fun e => !e.output.any (Mark.creates a)) = [] :=
      takeWhile_eq_nil_iff.mpr (dropWhile_get_zero_not _ log)
    rw [tenure, takeWhile_append_of_pos hmid, hprior, append_nil]

section Run

variable (hrun : Runs subnet main size s)

include hrun

section Main

variable (hmain : (ofNet subnet).Mem main)

include hmain

section Alive

variable (halive : (s.state.forkEntries.lookup a).isSome = true)

include halive

/-- Nothing was sent to an address before the fork was there that it is for. -/
private theorem Runs.accepted_prior (hfor : IsFor a s.log dst) :
    ∀ m ∈ accepted (trace (prior a s.log)), m.dst ≠ dst := by
  rcases hfor with ⟨rfl, hnone⟩ | ⟨⟨⟨b, r⟩, hb, rfl, hmem⟩, -, hprior⟩
  · exact hnone
  · rintro m hm rfl
    obtain ⟨t, ht⟩ := reaches_of_log_append hrun tenure_append_prior.symm
    have hinv := Runs.inv ht hmain
    rcases hinv.covered m hm with hown | ⟨b, hb, hmem'⟩
    · have hbound := ((hrun.forkInv hmain halive).bound r).mpr hb
      have hapart := (hrun.inv hmain).wf.apart _ hbound
      rw [(hrun.inv hmain).subnetAddress] at hapart
      exact hapart (hown.overlap hmem)
    · exact hprior b hb hmem'

/-- What is for the fork goes to the fork. -/
private theorem Runs.route_tenure {later mid : List (Call M)}
    (htenure : tenure a s.log = later ++ e :: mid) (hm : m ∈ e.before.rx lane)
    (hfor : IsFor a s.log m.dst) : e.before.route m.dst = a := by
  obtain ⟨hlog, hmid⟩ := tenure_suffix htenure
  have hreach := (reaches_of_log_eq hrun hlog).1
  have hinv := Runs.inv hreach hmain
  have hmem : e ∈ tenure a s.log := by
    rw [htenure]
    exact mem_append_right _ mem_cons_self
  have halive' := (hrun.forkInv hmain halive).alive e hmem
  have hforkInv := Runs.forkInv hreach hmain halive'
  rcases hfor with ⟨hself, -⟩ | ⟨⟨⟨b, r⟩, hb, rfl, hr⟩, hown, hprior⟩
  · rw [hself]
    exact hinv.wf.route_of_own (hinv.wf.forks a halive')
  · -- it was accepted through a node, which is one of a subnet that the fork has bound since
    have haccepted : m ∈ accepted (trace (mid ++ prior b s.log)) := by
      have hqueue : m ∈ acceptedOn lane (trace (mid ++ prior b s.log)) := by
        rw [hinv.queue lane]
        exact mem_append_right _ hm
      exact mem_accepted_of_mem hqueue
    rcases hinv.covered m haccepted with hin | ⟨⟨b', r'⟩, hb', hr'⟩
    · -- an address of the actor is in no subnet that is bound
      have hbound := ((hrun.forkInv hmain halive).bound r).mpr hb
      have hapart := (hrun.inv hmain).wf.apart _ hbound
      rw [(hrun.inv hmain).subnetAddress] at hapart
      exact absurd (hin.overlap hr) hapart
    · rw [trace_append, binds_append] at hb'
      rcases mem_append.mp hb' with hb' | hb'
      · exact absurd hr' (hprior _ hb')
      · have hsame : b' = b := hown (b', r') (by
          rw [htenure, trace_append, trace_cons, binds_append, binds_append]
          exact mem_append_left _ (mem_append_left _ hb')) hr'
        subst hsame
        refine hinv.wf.route_of_bound ((hforkInv.bound r').mpr ?_) hr'
        rwa [hmid]

/-- For whom a message is taken. -/
private theorem Runs.taken_tenure {fork : Option Address}
    (hmark : .taken lane m fork ∈ trace (tenure a s.log)) (hfor : IsFor a s.log m.dst) :
    ordinary lane m = true ↔ fork = some a := by
  obtain ⟨e, he, hmark⟩ := mem_collect.mp hmark
  obtain ⟨later, mid, htenure⟩ := append_of_mem he
  obtain ⟨hreach, s', hcall⟩ := reaches_of_log_eq hrun (tenure_suffix htenure).1
  have hmove := moves_of_call (Runs.inv hreach hmain).wf hcall
  obtain ⟨hrx, hsome, hfork⟩ := taken_of_moves hmove hmark
  have hroute := hrun.route_tenure hmain halive htenure hrx hfor
  rw [hroute] at hsome hfork
  constructor
  · exact hsome ((hrun.forkInv hmain halive).alive e he)
  · rintro rfl
    exact (hfork (by simp)).2

/-- **For a fork that is there, what is received and what is waiting is what was accepted.** -/
theorem Runs.received_append (lane : Lane) :
    (receivedBy a lane (trace (tenure a s.log)) ++ s.state.inboxOf a lane).filter
          (fun m => IsFor a s.log m.dst) ++
        (s.state.rx lane).filter (fun m => IsFor a s.log m.dst && ordinary lane m) =
      (acceptedOn lane (trace s.log)).filter
        fun m => IsFor a s.log m.dst && ordinary lane m := by
  obtain ⟨t, ht⟩ := reaches_of_log_append hrun (tenure_append_prior (a := a)).symm
  have hprior : (takenOn lane (trace (prior a s.log))).filter
      (fun m => IsFor a s.log m.dst && ordinary lane m) = [] := by
    rw [filter_eq_nil_iff]
    intro m hm hp
    have hfor : IsFor a s.log m.dst := by simpa using (Bool.and_eq_true_iff.mp hp).1
    have haccepted : m ∈ acceptedOn lane (trace (prior a s.log)) := by
      rw [(Runs.inv ht hmain).queue lane]
      exact mem_append_left _ hm
    exact hrun.accepted_prior hmain halive hfor m (mem_accepted_of_mem haccepted) rfl
  have htenure : (takenOn lane (trace (tenure a s.log))).filter
        (fun m => IsFor a s.log m.dst && ordinary lane m) =
      (takenFor a lane (trace (tenure a s.log))).filter fun m => IsFor a s.log m.dst :=
    filter_takenOn fun m fork hmark hp =>
      hrun.taken_tenure hmain halive hmark (by simpa using hp)
  have hall : trace s.log = trace (prior a s.log) ++ trace (tenure a s.log) := by
    rw [← trace_append, tenure_append_prior]
  calc _ = (takenFor a lane (trace (tenure a s.log))).filter (fun m => IsFor a s.log m.dst) ++
        (s.state.rx lane).filter (fun m => IsFor a s.log m.dst && ordinary lane m) := by
        rw [(hrun.forkInv hmain halive).inbox lane]
    _ = (takenOn lane (trace s.log) ++ s.state.rx lane).filter
        fun m => IsFor a s.log m.dst && ordinary lane m := by
        rw [filter_append, hall, takenOn_append, filter_append, hprior, htenure, nil_append]
    _ = _ := by rw [(hrun.inv hmain).queue lane]

end Alive

/-- A regular message is received when no priority one is there. -/
private theorem Runs.received_regular {later earlier : List (Call M)}
    (hlog : s.log = later ++ e :: earlier) (hmark : .received a .regular m ∈ e.output) :
    e.before.inboxOf a .priority = [] ∧ ∃ i, e.before.inlets = some i ∧ i.fork = a ∧
      (i.drained = true →
        e.before.rx .priority = acceptedOn .priority (trace (sinceStop earlier))) := by
  obtain ⟨hreach, s', hcall⟩ := reaches_of_log_eq hrun hlog
  have hinv := log_invariant hreach (P := fun s log => Inv subnet s log ∧ Drained s log)
    ⟨inv_init hmain, fun i hi => by contradiction⟩ fun hinv _ hcall =>
      ⟨hinv.1.step (moves_of_call hinv.1.wf hcall), hinv.2.step hinv.1.wf hcall⟩
  rcases received_cases (moves_of_call hinv.1.wf hcall) with
    hnone | ⟨i, lane, m', entry, hmarks, hi, hlane, hentry, -, hempty, -⟩
  · exact absurd hmark (hnone a .regular m)
  · rw [hmarks] at hmark
    obtain ⟨rfl, rfl, rfl⟩ := Mark.received.inj (mem_singleton.mp hmark)
    refine ⟨?_, i, hi, rfl, hinv.2 i hi hlane⟩
    rw [inboxOf, hentry]
    exact hempty rfl

end Main

end Run

/-- **The mailbox of an actor subnet**, in every run. For each fork that is there and each lane,
what the fork has received, what is in its inbox and what is in the channel is, in this order, what
was accepted for it. A regular message is received only if there is no priority message in the
inbox, and none in the channel but what came after the loop over it had found it empty. All that
was accepted is in the mailbox, or was received or discarded, once; and there are at most as many
messages with a permit of a node as it has permits. -/
theorem received_exact_of_runs (hmain : (ofNet subnet).Mem main)
    (hrun : Runs subnet main size s) :
    (∀ a, (s.state.forkEntries.lookup a).isSome = true → ∀ lane,
      (receivedBy a lane (trace (tenure a s.log)) ++ s.state.inboxOf a lane).filter
            (fun m => IsFor a s.log m.dst) ++
          (s.state.rx lane).filter (fun m => IsFor a s.log m.dst && ordinary lane m) =
        (acceptedOn lane (trace s.log)).filter
          (fun m => IsFor a s.log m.dst && ordinary lane m) ∧
      ∀ m ∈ receivedBy a lane (trace (tenure a s.log)),
        m.dst = a ∨ ∃ b ∈ binds (trace (tenure a s.log)), b.1 = a ∧ b.2.Mem m.dst) ∧
    (∀ later e earlier a m, s.log = later ++ e :: earlier → .received a .regular m ∈ e.output →
      e.before.inboxOf a .priority = [] ∧ ∃ i, e.before.inlets = some i ∧ i.fork = a ∧
        (i.drained = true →
          e.before.rx .priority = acceptedOn .priority (trace (sinceStop earlier)))) ∧
    (accepted (trace s.log)).Perm (gone (trace s.log) ++ s.state.held) ∧
    ∀ n node, s.state.nodes[n]? = some node →
      s.state.held.countP (holds n) ≤ node.inboxSize := by
  have hinv := hrun.inv hmain
  refine ⟨fun a halive lane => ⟨hrun.received_append hmain halive lane, fun m hm => ?_⟩,
    fun _ _ _ _ _ hlog hmark => hrun.received_regular hmain hlog hmark, ?_, ?_⟩
  · have hfork := hrun.forkInv hmain halive
    refine hfork.owned lane m ?_
    rw [hfork.inbox lane]
    exact mem_append_left _ hm
  · classical
    refine perm_iff_count.mpr fun m => ?_
    rw [count_append]
    exact hinv.kept _
  · intro n node hnode
    have hbalance := hinv.balanced n
    rw [inboxSize, hnode] at hbalance
    exact Nat.le_of_add_left_le hbalance.le

end Runs

/-- The main fork moves what has come for the other fork, which has bound a subnet; of that the
other fork has received the priority message and the first regular one. -/
theorem received_exact_of_runs_forks :
    ∃ s : Logged (SubnetContext ℕ) (Label ℕ) (List (Mark ℕ)),
      Runs actorNet ⟨16#64⟩ 2 s ∧
      receivedBy ⟨17#64⟩ .priority (trace (tenure ⟨17#64⟩ s.log)) =
        [⟨⟨17#64⟩, ⟨15, true, .other 3⟩, none⟩] ∧
      receivedBy ⟨17#64⟩ .regular (trace (tenure ⟨17#64⟩ s.log)) =
        [⟨⟨17#64⟩, ⟨15, false, .other 1⟩, some 0⟩] ∧
      (IsFor ⟨17#64⟩ s.log ⟨17#64⟩ ∧ IsFor ⟨17#64⟩ s.log ⟨33#64⟩) ∧
      s.state.held.countP (holds 1) ≤ 1 ∧
      (receivedBy ⟨17#64⟩ .regular (trace (tenure ⟨17#64⟩ s.log)) ++
            s.state.inboxOf ⟨17#64⟩ .regular).filter (fun m => IsFor ⟨17#64⟩ s.log m.dst) ++
          (s.state.rx .regular).filter
            (fun m => IsFor ⟨17#64⟩ s.log m.dst && ordinary .regular m) =
        (acceptedOn .regular (trace s.log)).filter
          (fun m => IsFor ⟨17#64⟩ s.log m.dst && ordinary .regular m) := by
  have hreach : Runs actorNet ⟨16#64⟩ 2 _ := Transition.reaches_get
    [.fork ⟨17#64⟩, .bind ⟨17#64⟩ ⟨⟨32#64⟩, actorNet.mask⟩ 1 true,
      .send 0 ⟨17#64⟩ .regular ⟨15, false, .other 1⟩ true,
      .send 1 ⟨33#64⟩ .regular ⟨15, false, .other 2⟩ true,
      .send 0 ⟨17#64⟩ .priority ⟨15, true, .ping none 7#64⟩ true,
      .send 0 ⟨17#64⟩ .priority ⟨15, true, .other 3⟩ true,
      .enter ⟨16#64⟩ true, .turn true, .turn true, .stop false, .turn true, .turn true,
      .stop false, .enter ⟨17#64⟩ true, .stop false, .stop false, .enter ⟨17#64⟩ true,
      .stop false, .stop false] (by decide)
  obtain ⟨hreceived, -, -, hpermits⟩ := received_exact_of_runs (by decide) hreach
  exact ⟨_, hreach, by decide, by decide, by decide, hpermits 1 _ rfl,
    (hreceived ⟨17#64⟩ (by decide) .regular).1⟩

/-- **A ping on the regular lane** is not one for `process_inlets`: `recv` returns it. And it does
so while there is a priority message, which has come after the first loop was over. -/
theorem received_ping_on_regular :
    ∃ s : Logged (SubnetContext ℕ) (Label ℕ) (List (Mark ℕ)),
      Runs actorNet ⟨16#64⟩ 2 s ∧
      receivedBy ⟨16#64⟩ .regular (trace s.log) =
        [⟨⟨16#64⟩, ⟨15, false, .ping none 7#64⟩, some 0⟩] ∧
      IsFor ⟨16#64⟩ s.log ⟨16#64⟩ ∧
      (acceptedOn .regular (trace s.log)).filter (ordinary .priority) = [] ∧
      s.state.rx .priority = [⟨⟨16#64⟩, ⟨15, true, .other 3⟩, none⟩] :=
  ⟨_, Transition.reaches_get
    [.send 0 ⟨16#64⟩ .regular ⟨15, false, .ping none 7#64⟩ true, .enter ⟨16#64⟩ true,
      .stop false, .turn true, .send 0 ⟨16#64⟩ .priority ⟨15, true, .other 3⟩ true,
      .stop false] (by decide), by decide, by decide, by decide, by decide⟩

end Mailbox

end Mm1
