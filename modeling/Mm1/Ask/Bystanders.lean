import Mm1.Ask.Client

/-!
# What is not a response

While a context asks, messages come that have nothing to do with it. The loop of `ask_impl` takes
them out of the mailbox and keeps them, and afterwards it forwards them to the context itself.
Forwarding is sending: it needs a TTL and a permit, it goes on the lane that the header says, and
behind what has come in the meantime. So the messages are still there, in their order, if none of
this gets in the way at any of them (`Restorable`).

* `Kept`: what holds while the context asks;
* `unrelated_kept_of_runs`: the mailbox afterwards is the one before, with what has come;
* `destroyed_by_ask`: a message that is lost, since another one has its permit.
-/

namespace Mm1

open Mailbox List SubnetContext Transition History

namespace Ask

variable {T Rq Rs X : Type} [DecidableEq T] {self : Address} {type : T} {label : Label T Rq Rs X}
  {b : Lane × Envelope (Letter T Rq Rs X)} {client : Client T Rq Rs X} {act : Act T Rq Rs X}
  {m : Message (Letter T Rq Rs X)} {isOpen : Bool} {q : Asked T} {lane : Lane}

/-! ### Messages that are not responses -/

/-- It is not a `Response` with a payload of the type. -/
def unrelated (type : T) (e : Envelope (Letter T Rq Rs X)) : Bool :=
  match e.content with
  | .other (.response _ type' _) => type' ≠ type
  | _ => true

/-- What is in the envelopes that are not responses. -/
def bodies (type : T) (es : List (Envelope (Letter T Rq Rs X))) :
    List (Content (Letter T Rq Rs X)) :=
  (es.filter (unrelated type)).map Envelope.content

/-- What was put aside on a lane. -/
def onLane (lane : Lane) (bystanders : List (Lane × Envelope (Letter T Rq Rs X))) :
    List (Content (Letter T Rq Rs X)) :=
  (bystanders.filter fun b => b.1 = lane).map fun b => b.2.content

@[simp] theorem bodies_append (es es' : List (Envelope (Letter T Rq Rs X))) :
    bodies type (es ++ es') = bodies type es ++ bodies type es' := by
  simp [bodies]

omit [DecidableEq T] in
@[simp] theorem onLane_append (lane : Lane) (bs bs' : List (Lane × Envelope (Letter T Rq Rs X))) :
    onLane lane (bs ++ bs') = onLane lane bs ++ onLane lane bs' := by
  simp [onLane]

/-- What is waiting for the context. -/
def letters (self : Address) (mailbox : SubnetContext (Letter T Rq Rs X)) (lane : Lane) :
    List (Envelope (Letter T Rq Rs X)) :=
  (mailbox.content self lane).map Message.envelope

/-- What has come for the context in a step. What it forwards to itself is not counted. -/
def Act.arrivals (self : Address) (mailbox : SubnetContext (Letter T Rq Rs X)) (lane : Lane) :
    Act T Rq Rs X → List (Envelope (Letter T Rq Rs X))
  | .moved marks | .asked _ marks =>
    ((acceptedOn lane marks).filter fun m => mailbox.route m.dst = self && ordinary lane m).map
      Message.envelope
  | _ => []

/-- What has come for the context in a run. -/
def arrivals (self : Address) (mailbox : SubnetContext (Letter T Rq Rs X)) (lane : Lane)
    (log : List (Step T Rq Rs X)) :
    List (Envelope (Letter T Rq Rs X)) :=
  collect (fun e => e.output.arrivals self mailbox lane) log

/-! ### When a message can be put back -/

/-- A message is forwarded, and the channel is open or not. -/
def Label.forwards : Label T Rq Rs X → Option Bool
  | .forward isOpen => some isOpen
  | _ => none

/-- The context goes on after the ask. -/
def Label.actsFor (self : Address) : Label T Rq Rs X → Bool
  | .mailbox (.enter b _) => b = self
  | .mailbox (.bind b _ _ _) => b = self
  | .mailbox (.drop b) => b = self
  | .ask _ _ _ _ _ => true
  | _ => false

/-- The next message that is forwarded comes to the end of its own lane, and there is nothing there
that it should be before. -/
def Restorable (self : Address) (type : T) (s : World T Rq Rs X) (l : Label T Rq Rs X) : Prop :=
  ∀ isOpen ∈ l.forwards, ∀ b ∈ s.client.bystanders.head?,
    b.2.ttl ≠ 0 ∧ (b.2.priority = true ↔ b.1 = .priority) ∧ isOpen = true ∧
      (b.1 = .regular → ∀ n ∈ s.mailbox.registry.lookup self, s.mailbox.available n ≠ 0) ∧
      bodies type (letters self s.mailbox b.1) = onLane b.1 s.client.restored

/-- A step until the context goes on. -/
def During (self : Address) (type : T) (s : World T Rq Rs X) (l : Label T Rq Rs X) : Prop :=
  (s.client.isIdle = true → l.actsFor self = false) ∧ Restorable self type s l

instance [DecidableEq Rq] [DecidableEq Rs] [DecidableEq X] (s : World T Rq Rs X)
    (l : Label T Rq Rs X) : Decidable (During self type s l) :=
  inferInstanceAs (Decidable (_ ∧ ∀ isOpen ∈ l.forwards, ∀ b ∈ s.client.bystanders.head?, _))

/-! ### While the context asks -/

/-- The context is still there, and the same addresses lead to it as before. -/
structure Stays (a : Address) (before mailbox : SubnetContext (Letter T Rq Rs X)) : Prop where
  wf : mailbox.Wf
  pingless : mailbox.Pingless
  alive : (mailbox.forkEntries.lookup a).isSome = true
  route : ∀ dst, mailbox.route dst = a ↔ before.route dst = a

omit [DecidableEq T] in
private theorem Stays.moves {before mailbox mailbox' : SubnetContext (Letter T Rq Rs X)}
    {l : Mailbox.Label (Letter T Rq Rs X)} {marks : List (Mark (Letter T Rq Rs X))}
    (h : Stays self before mailbox) (hmove : SubnetContext.Moves mailbox l mailbox' marks)
    (hl : l.Spares self) : Stays self before mailbox' where
  wf := h.wf.moves hmove
  pingless := h.pingless.moves hmove
  alive := alive_after hmove hl h.alive
  route dst := (route_of_moves h.wf hmove hl h.alive dst).trans (h.route dst)

/-- What holds since the ask has begun. What was forwarded comes first in the mailbox, and what is
put aside comes after it and before all else. -/
structure Kept (a : Address) (type : T) (mailbox : SubnetContext (Letter T Rq Rs X))
    (before : Lane → List (Envelope (Letter T Rq Rs X))) (s : World T Rq Rs X)
    (log : List (Step T Rq Rs X)) : Prop extends Stays a mailbox s.mailbox where
  free : s.mailbox.inlets.map Inlets.fork = some a → s.client.isWaiting = true
  asked : ∀ q ∈ s.client.asked, q.type = type
  aside : ∀ b ∈ s.client.bystanders,
    unrelated type b.2 = true ∧ ordinary b.1 ⟨a, b.2, none⟩ = true
  queue : ∀ lane, ∃ tail,
    bodies type (letters a s.mailbox lane) = onLane lane s.client.restored ++ tail ∧
    onLane lane s.client.restored ++ onLane lane s.client.bystanders ++ tail =
      bodies type (before lane ++ arrivals a mailbox lane log)

/-- The loop keeps what is not a response, and drops or returns what is one. -/
theorem receive_spec (q : Asked T) (bystanders : List (Lane × Envelope (Letter T Rq Rs X)))
    (lane : Lane) (e : Envelope (Letter T Rq Rs X)) :
    (Client.receive q bystanders lane e).asked = some q ∧
      (Client.receive q bystanders lane e).restored = [] ∧
      (Client.receive q bystanders lane e).bystanders =
        bystanders ++ if unrelated q.type e then [(lane, e)] else [] := by
  rcases e with
    ⟨ttl, priority, ⟨replyTo, pingId⟩ | ⟨header, payload⟩ | ⟨id, type, payload⟩ | message⟩
  case other.response =>
    by_cases htype : type = q.type
    · by_cases hid : id = q.id <;>
        simp [Client.receive, unrelated, htype, hid, Client.asked, Client.restored,
          Client.bystanders]
    · simp [Client.receive, unrelated, htype, Client.asked, Client.restored, Client.bystanders]
  all_goals exact ⟨rfl, rfl, rfl⟩

section Steps

variable {mailbox : SubnetContext (Letter T Rq Rs X)} {s : World T Rq Rs X}
  {before : Lane → List (Envelope (Letter T Rq Rs X))} {l : Mailbox.Label (Letter T Rq Rs X)}
  {log : List (Step T Rq Rs X)}
  {mailbox' : SubnetContext (Letter T Rq Rs X)} {marks : List (Mark (Letter T Rq Rs X))}

private theorem Kept.flow (h : Kept self type mailbox before s log)
    (hmove : SubnetContext.Moves s.mailbox l mailbox' marks) (hl : l.Spares self) (lane : Lane) :
    letters self s.mailbox lane ++ (Act.moved marks).arrivals self mailbox lane =
      (receivedBy self lane marks).map Message.envelope ++ letters self mailbox' lane := by
  have hcontent := congrArg (List.map Message.envelope)
    (content_of_moves h.wf hmove hl h.alive lane)
  rw [map_append, map_append] at hcontent
  simp only [h.route] at hcontent
  exact hcontent

/-- A step of the mailbox that gives nothing to the context. -/
private theorem Kept.arrive (h : Kept self type mailbox before s log)
    (hmove : SubnetContext.Moves s.mailbox l mailbox' marks) (hl : l.Spares self)
    (hnone : ∀ lane, receivedBy self lane marks = [])
    (hfree : mailbox'.inlets.map Inlets.fork = some self → client.isWaiting = true)
    (hasked : client.asked = s.client.asked) (haside : client.bystanders = s.client.bystanders)
    (hrestored : client.restored = s.client.restored) :
    Kept self type mailbox before { s with mailbox := mailbox', client }
      (⟨s, label, .moved marks⟩ :: log) where
  toStays := h.toStays.moves hmove hl
  free := hfree
  asked := by rw [hasked]; exact h.asked
  aside := by rw [haside]; exact h.aside
  queue lane := by
    obtain ⟨tail, hletters, hall⟩ := h.queue lane
    have hqueue := h.flow hmove hl lane
    rw [hnone lane, map_nil, nil_append] at hqueue
    -- what comes goes to the end of the lane
    refine ⟨tail ++ bodies type ((Act.moved marks).arrivals self mailbox lane), ?_, ?_⟩
    · rw [← hqueue, bodies_append, hletters, hrestored, append_assoc]
    · rw [hrestored, haside, ← append_assoc, hall, arrivals, arrivals, collect_cons,
        ← bodies_append, append_assoc]

/-- A step of the mailbox that gives a message to the context. -/
private theorem Kept.receive (h : Kept self type mailbox before s log)
    {bystanders : List (Lane × Envelope (Letter T Rq Rs X))}
    (hclient : s.client = .waiting q bystanders) (hm : m ∈ s.mailbox.inboxOf self lane)
    (hmove : SubnetContext.Moves s.mailbox l mailbox' [.received self lane m]) (hl : l.Spares self)
    (hinlets : mailbox'.inlets = none) :
    Kept self type mailbox before
      { s with mailbox := mailbox', client := .receive q bystanders lane m.envelope }
      (⟨s, label, .moved [.received self lane m]⟩ :: log) := by
  obtain rfl : q.type = type := h.asked q (by rw [hclient]; rfl)
  obtain ⟨hasked, hrestored, haside⟩ := receive_spec q bystanders lane m.envelope
  refine ⟨h.toStays.moves hmove hl, ?_, ?_, ?_, ?_⟩
  · rw [hinlets]
    exact fun hself => by contradiction
  · rw [hasked]
    rintro q' ⟨rfl⟩
    rfl
  · rw [haside]
    intro b hb
    rcases mem_append.mp hb with hold | hnew
    · exact h.aside b (by rw [hclient]; exact hold)
    · split at hnew
      case isTrue hun =>
        obtain rfl := mem_singleton.mp hnew
        exact ⟨hun, h.pingless self lane m hm⟩
      case isFalse => exact absurd hnew not_mem_nil
  · intro lane'
    obtain ⟨tail, htail, hall⟩ := h.queue lane'
    have hqueue := h.flow hmove hl lane'
    have harrive : (Act.moved [.received self lane m]).arrivals self mailbox lane' = [] := by
      simp [Act.arrivals, acceptedOn]
    rw [harrive, append_nil] at hqueue
    rw [hclient] at htail hall
    simp only [Client.restored, Client.bystanders] at htail hall
    have hreceived : bodies q.type ((receivedBy self lane' [.received self lane m]).map
          Message.envelope) =
        onLane lane' (if unrelated q.type m.envelope then [(lane, m.envelope)] else []) := by
      by_cases hlane : lane = lane' <;> cases hun : unrelated q.type m.envelope <;>
        simp [receivedBy, bodies, onLane, hlane, hun]
    -- nothing was forwarded yet: all that is not put aside is the tail
    refine ⟨bodies q.type (letters self mailbox' lane'), ?_, ?_⟩
    · rw [hrestored]
      rfl
    · rw [hrestored, haside, arrivals, collect_cons, harrive, append_nil, ← arrivals,
        ← hall, onLane_append, ← hreceived, append_assoc, append_assoc, append_assoc,
        ← bodies_append, ← hqueue, htail]
      rfl

/-- What comes back to the context when it forwards a message to itself. -/
private theorem bodies_arrivals_forward (hcontent : m.envelope.content = b.2.content)
    (hun : unrelated type b.2 = true) (hplain : ordinary b.1 m = true)
    (hroute : mailbox.route m.dst = self) (lane : Lane) :
    bodies type ((Act.moved [.accepted b.1 m]).arrivals self mailbox lane) = onLane lane [b] := by
  have hun' : unrelated type m.envelope = true := by
    rw [← hun, unrelated.eq_def, unrelated.eq_def, hcontent]
  by_cases hlane : b.1 = lane
  · subst hlane
    simp [Act.arrivals, acceptedOn, bodies, onLane, hroute, hplain, hun', hcontent]
  · simp [Act.arrivals, acceptedOn, bodies, onLane, hlane]

omit [DecidableEq T] in
/-- A message and what is on the other lane can be taken in either order. -/
private theorem append_onLane_comm {tail : List (Content (Letter T Rq Rs X))}
    (h : b.1 = lane → tail = []) : tail ++ onLane lane [b] = onLane lane [b] ++ tail := by
  by_cases hlane : b.1 = lane
  · rw [h hlane, nil_append, append_nil]
  · simp [onLane, hlane]

/-- The next message is forwarded. -/
private theorem Kept.forward (h : Kept self type mailbox before s log)
    {restored bystanders : List (Lane × Envelope (Letter T Rq Rs X))}
    {outcome : Except (ErrorOf AskErrorKind) Rs}
    (hclient : s.client = .restoring q restored (b :: bystanders) outcome)
    (hok : Restorable self type s (.forward isOpen)) :
    Kept self type mailbox before
      { s with
        mailbox := (s.mailbox.dispatch self b.2 isOpen).1
        client := .restoring q (restored ++ [b]) bystanders outcome }
      (⟨s, label, .forwarded (s.mailbox.dispatch self b.2 isOpen).2⟩ :: log) := by
  obtain ⟨httl, hlane, rfl, hfree, hlast⟩ := hok isOpen rfl b (by rw [hclient]; rfl)
  obtain ⟨m, hmarks, hdst, henvelope⟩ := dispatch_accepts h.wf h.alive httl hlane hfree
  have hdispatch : s.mailbox.dispatch self b.2 true =
      ((s.mailbox.dispatch self b.2 true).1, [.accepted b.1 m]) := Prod.ext rfl hmarks
  obtain ⟨n, lane, e, -, hmove⟩ := moves_dispatch h.wf hdispatch
  have hl : (Mailbox.Label.send n self lane e true).Spares self := trivial
  obtain ⟨hun, hordinary⟩ := h.aside b (by rw [hclient]; exact mem_cons_self)
  have hthere : mailbox.route m.dst = self := by
    rw [hdst, ← h.route, h.wf.route_of_own (h.wf.forks self h.alive)]
  have hplain : ordinary b.1 m = true := by
    rw [← hordinary]
    exact ordinary_congr (by rw [henvelope])
  refine ⟨h.toStays.moves hmove hl, ?_, ?_, ?_, ?_⟩
  · -- while it forwards, the context does not receive
    intro hself
    rw [dispatch_inlets hdispatch] at hself
    have hwaiting := h.free hself
    rw [hclient] at hwaiting
    contradiction
  · have hasked := h.asked
    rw [hclient] at hasked
    exact hasked
  · intro c hc
    exact h.aside c (by rw [hclient]; exact mem_cons_of_mem _ hc)
  · intro lane
    obtain ⟨tail, htail, hall⟩ := h.queue lane
    have hqueue := h.flow hmove hl lane
    have hqueue := congrArg (bodies type) hqueue
    rw [bodies_append, bodies_arrivals_forward (by rw [henvelope]) hun hplain hthere] at hqueue
    rw [hclient] at htail hall hlast
    simp only [Client.restored, Client.bystanders] at htail hall hlast
    have hcons : onLane lane (b :: bystanders) = onLane lane [b] ++ onLane lane bystanders :=
      onLane_append lane [b] bystanders
    -- on the lane of the message there is nothing behind what was forwarded
    have hcomm : tail ++ onLane lane [b] = onLane lane [b] ++ tail := by
      refine append_onLane_comm ?_
      rintro rfl
      rw [hlast] at htail
      exact self_eq_append_right.mp htail
    refine ⟨tail, ?_, ?_⟩
    · calc bodies type (letters self (s.mailbox.dispatch self b.2 true).1 lane)
          = onLane lane restored ++ tail ++ onLane lane [b] := by
            rw [← htail, hqueue]
            rfl
        _ = onLane lane (restored ++ [b]) ++ tail := by
            rw [append_assoc, hcomm, onLane_append, append_assoc]
    · rw [arrivals, collect_cons, ← arrivals]
      calc onLane lane (restored ++ [b]) ++ onLane lane bystanders ++ tail
          = onLane lane restored ++ onLane lane (b :: bystanders) ++ tail := by
            rw [onLane_append, hcons, append_assoc, append_assoc, append_assoc, append_assoc]
        _ = _ := by
            rw [hall]
            simp [Act.arrivals]

/-- A step that does not touch the mailbox. -/
private theorem Kept.silent (h : Kept self type mailbox before s log) {requestId : BitVec 64}
    {requests : List RequestHeader} {replies : List (ℕ × T × Rs)}
    (hfree : s.mailbox.inlets.map Inlets.fork = some self → client.isWaiting = true)
    (hasked : ∀ q ∈ client.asked, q ∈ s.client.asked)
    (haside : client.bystanders = s.client.bystanders)
    (hrestored : client.restored = s.client.restored ∨
      client.restored = [] ∧ s.client.bystanders = [])
    (hact : ∀ lane, act.arrivals self mailbox lane = []) :
    Kept self type mailbox before ⟨s.mailbox, requestId, client, requests, replies⟩
      (⟨s, label, act⟩ :: log) where
  toStays := h.toStays
  free := hfree
  asked q hq := h.asked q (hasked q hq)
  aside := by rw [haside]; exact h.aside
  queue lane := by
    obtain ⟨tail, htail, hall⟩ := h.queue lane
    rw [haside, arrivals, collect_cons, hact lane, append_nil, ← arrivals]
    rcases hrestored with hsame | ⟨hnil, hdone⟩
    · rw [hsame]
      exact ⟨tail, htail, hall⟩
    · refine ⟨onLane lane s.client.restored ++ tail, ?_, ?_⟩
      · rw [hnil, htail]
        rfl
      · rw [← hall, hnil, hdone]
        simp [onLane]

omit [DecidableEq T] in
private theorem spares_of_allows (hallows : client.allows self l = true)
    (hidle : client.isIdle = true → (Label.mailbox l : Label T Rq Rs X).actsFor self = false) :
    l.Spares self := by
  cases l with
  | drop b | bind b =>
    rintro rfl
    simpa [Label.actsFor] using hidle (by simpa [Client.allows] using hallows)
  | _ => trivial

/-- **Every step until the context goes on** keeps what is not a response. -/
theorem Kept.step (h : Kept self type mailbox before s log) (hok : During self type s label)
    {s' : World T Rq Rs X} (hcall : s.call self label = some (s', act)) :
    Kept self type mailbox before s' (⟨s, label, act⟩ :: log) := by
  obtain ⟨hidle, hrestorable⟩ := hok
  cases steps_of_call hcall with
  | @mailbox l mailbox' marks hallows hmailbox =>
    have hl := spares_of_allows hallows hidle
    have hmove := moves_of_call h.wf hmailbox
    rcases next_cases h.wf hmailbox self s.client with
      ⟨lane, m, rfl, hfork, hm, hnone, hnext⟩ | ⟨hreceived, hnext⟩
    · obtain ⟨q, bystanders, hclient⟩ := Client.eq_waiting (h.free hfork)
      rw [hnext, hclient, Client.handle, if_pos rfl]
      exact h.receive hclient hm hmove hl hnone
    · rcases hnext with hsame | ⟨q, bystanders, reason, hclient, hnone, hnext⟩
      · rw [hsame]
        refine h.arrive hmove hl hreceived (fun hfork => ?_) rfl rfl rfl
        obtain ⟨i, hi, hself⟩ := Option.map_eq_some_iff.mp hfork
        rcases fork_of_inlets hmailbox hi with hold | ⟨receives, rfl⟩
        · exact h.free (hold.trans (congrArg some hself))
        · -- the fork goes on receiving
          have hbusy : s.client.isIdle ≠ true := fun hi => by
            simpa [Label.actsFor, hself] using hidle hi
          simp [Client.allows, hself, hbusy] at hallows
          exact hallows.1
      · rw [hnext]
        refine h.arrive hmove hl hreceived (fun hfork => ?_) ?_ ?_ ?_
        · rw [hnone] at hfork
          contradiction
        all_goals rw [hclient]; rfl
  | ask hclient =>
    have hfalse := hidle (by rw [hclient]; rfl)
    contradiction
  | timeout hclient hfree =>
    refine h.silent (fun hself => absurd hself hfree) ?_ ?_ (.inl ?_) fun _ => by rfl
    · rw [hclient]
      exact fun q hq => hq
    · rw [hclient]
      rfl
    · rw [hclient]
      rfl
  | forward hclient => exact h.forward hclient hrestorable
  | finish hclient =>
    refine h.silent (fun hself => ?_) ?_ ?_ (.inr ⟨rfl, ?_⟩) fun _ => by rfl
    · have hwaiting := h.free hself
      rw [hclient] at hwaiting
      contradiction
    · exact fun q hq => by contradiction
    · rw [hclient]
      rfl
    · rw [hclient]
      rfl
  | elsewhere | reply => exact h.silent h.free (fun _ hq => hq) rfl (.inl rfl) fun _ => by rfl

/-- The ask has begun. -/
private theorem kept_of_ask {s₁ : World T Rq Rs X} (hwf : s.mailbox.Wf)
    (hpingless : s.mailbox.Pingless) (halive : (s.mailbox.forkEntries.lookup self).isSome = true)
    {server : Address} {payload : Rq} {elsewhere : Except SendErrorKind Unit}
    (hask : s.call self (.ask server type payload isOpen elsewhere) = some (s₁, act)) :
    Kept self type s.mailbox
      (fun lane => letters self s.mailbox lane ++ act.arrivals self s.mailbox lane) s₁ [] := by
  cases steps_of_call hask with
  | @ask _ _ _ _ _ answer mailbox' marks hidle hfree hdispatch =>
    obtain ⟨n, lane, e, -, hmove⟩ := moves_dispatch hwf hdispatch
    have hl : (Mailbox.Label.send n server lane e isOpen).Spares self := trivial
    have hinlets := dispatch_inlets hdispatch
    have hreceived : ∀ lane, receivedBy self lane marks = [] := by
      rcases received_cases hmove with hnone | ⟨i, _, _, _, -, hi, -, -, -, -, hnone⟩
      · intro lane
        exact eq_nil_iff_forall_not_mem.mpr fun m hm => hnone self lane m (received_of_mem hm)
      · rw [hinlets, hi] at hnone
        contradiction
    have hstays : Stays self s.mailbox s.mailbox := ⟨hwf, hpingless, halive, fun _ => Iff.rfl⟩
    refine ⟨hstays.moves hmove hl, fun hself => ?_, ?_, ?_, fun lane => ?_⟩
    · rw [hinlets] at hself
      exact absurd hself hfree
    · rw [Client.asked_start]
      rintro q ⟨rfl⟩
      rfl
    · rw [Client.bystanders_start]
      exact fun b hb => absurd hb not_mem_nil
    · have hcontent := congrArg (List.map Message.envelope)
        (content_of_moves hwf hmove hl halive lane)
      rw [map_append, hreceived lane, nil_append] at hcontent
      refine ⟨bodies type (letters self mailbox' lane), ?_, ?_⟩
      · rw [Client.restored_start]
        rfl
      · rw [Client.restored_start, Client.bystanders_start, letters, ← hcontent]
        simp [onLane, arrivals, letters, Act.arrivals]

end Steps

/-- **An ask keeps what is not a response.** In every run of an ask, from any state of the mailbox
and with any interleaving, in which each message that was put aside can be put back at the moment
when it is forwarded: once the ask has returned, the mailbox has on each lane what it had before and
what has come since, each once and in the same order. -/
theorem unrelated_kept_of_runs {subnet : NetAddress} {main : Address} {size : ℕ}
    {s₀ s₁ : World T Rq Rs X} {log₀ : List (Call (Letter T Rq Rs X))}
    (hmain : (AddressRange.ofNet subnet).Mem main)
    (hstart : Runs subnet main size ⟨s₀.mailbox, log₀⟩)
    (halive : (s₀.mailbox.forkEntries.lookup self).isSome = true) {server : Address} {payload : Rq}
    {isOpen : Bool} {elsewhere : Except SendErrorKind Unit} {act : Act T Rq Rs X}
    (hask : s₀.call self (.ask server type payload isOpen elsewhere) = some (s₁, act))
    {s : Logged (World T Rq Rs X) (Label T Rq Rs X) (Act T Rq Rs X)}
    (hrun : Reaches (History.step (World.call self))
      (fun s l => During self type s.state l) (.start s₁) s)
    (hdone : s.state.client.isIdle = true) (lane : Lane) :
    bodies type (letters self s.state.mailbox lane) =
      bodies type (letters self s₀.mailbox lane ++ act.arrivals self s₀.mailbox lane ++
        arrivals self s₀.mailbox lane s.log) := by
  have hkept := log_invariant hrun
    (kept_of_ask (hstart.inv hmain).wf (hstart.pingless hmain) halive hask)
    fun h hok hcall => h.step hok hcall
  obtain ⟨tail, htail, hall⟩ := hkept.queue lane
  have hclient : s.state.client = .idle := Client.eq_idle hdone
  rw [hclient] at htail hall
  exact htail.trans hall

/-- The context asks. -/
def asking : Option (World Unit Unit Unit ℕ × Act Unit Unit Unit ℕ) :=
  (World.init actorNet ⟨16#64⟩ 2).call ⟨16#64⟩ (.ask ⟨99#64⟩ () () true (.ok ()))

/-- Two messages come and are put aside. -/
def putAside : List (Label Unit Unit Unit ℕ) :=
  [.mailbox (.send 0 ⟨16#64⟩ .regular ⟨14, false, .other (.other 1)⟩ true),
    .mailbox (.send 0 ⟨16#64⟩ .regular ⟨14, false, .other (.other 2)⟩ true),
    .mailbox (.enter ⟨16#64⟩ true), .mailbox (.stop false), .mailbox (.turn true),
    .mailbox (.turn true), .mailbox (.stop false),
    .mailbox (.enter ⟨16#64⟩ true), .mailbox (.stop false), .mailbox (.stop false)]

/-- The response comes. -/
def respond : List (Label Unit Unit Unit ℕ) :=
  [.reply 0 () (), .mailbox (.send 0 ⟨16#64⟩ .priority ⟨14, true, .other (.response 1 () ())⟩ true),
    .mailbox (.enter ⟨16#64⟩ true), .mailbox (.turn true), .mailbox (.stop false)]

/-- Two messages come before the response; they are put aside and put back in their order. -/
theorem unrelated_kept_of_runs_restored :
    ∃ s₁ act, ∃ s : Logged (World Unit Unit Unit ℕ) (Label Unit Unit Unit ℕ)
        (Act Unit Unit Unit ℕ),
      asking = some (s₁, act) ∧
      Reaches (History.step (World.call ⟨16#64⟩))
        (fun s l => During ⟨16#64⟩ () s.state l) (.start s₁) s ∧
      bodies () (letters ⟨16#64⟩ s.state.mailbox .regular) =
        [.other (.other 1), .other (.other 2)] := by
  have hreach : Reaches (History.step (World.call ⟨16#64⟩))
      (fun s l => During ⟨16#64⟩ () s.state l) (.start (asking.get (by decide)).1) _ :=
    reaches_get (putAside ++ respond ++
      [.mailbox (.stop false), .forward true, .forward true, .finish]) (by decide)
  have hask : asking = some _ := (Option.some_get (by decide)).symm
  refine ⟨_, _, _, hask, hreach, ?_⟩
  have hstart : Runs actorNet ⟨16#64⟩ 2
      ⟨(World.init actorNet ⟨16#64⟩ 2 : World Unit Unit Unit ℕ).mailbox, []⟩ :=
    Reaches.refl
  exact (unrelated_kept_of_runs (by decide) hstart (by decide) hask hreach (by decide)
    .regular).trans (by decide)

/-- **An ask that destroys a message and puts another one out of order.** Two messages are put
aside, and a third one comes before the response; the mailbox has two permits. The first message is
put back behind the third, and for the second there is no permit. -/
theorem destroyed_by_ask :
    ∃ s₁ act, ∃ s : Logged (World Unit Unit Unit ℕ) (Label Unit Unit Unit ℕ)
        (Act Unit Unit Unit ℕ),
      asking = some (s₁, act) ∧
      Reaches (History.step (World.call ⟨16#64⟩)) (fun _ _ => True) (.start s₁) s ∧
      s.state.client.isIdle = true ∧
      bodies () (arrivals ⟨16#64⟩ s₁.mailbox .regular s.log) =
        [.other (.other 1), .other (.other 2), .other (.other 3)] ∧
      bodies () (letters ⟨16#64⟩ s.state.mailbox .regular) =
        [.other (.other 3), .other (.other 1)] :=
  ⟨_, _, _, (Option.some_get (by decide)).symm, reaches_get (putAside ++
    [.mailbox (.send 0 ⟨16#64⟩ .regular ⟨14, false, .other (.other 3)⟩ true)] ++ respond ++
    [.mailbox (.turn true), .mailbox (.stop false), .forward true, .forward true,
      .finish]) (by decide), by decide, by decide, by decide⟩

end Ask

end Mm1
