import Mm1.Runtime.MailboxRun

/-!
# Asking

`ask_impl` of `mm1-ask` sends a request to a server and receives until the response to it comes, or
until the time is over. A response to another request is dropped; what is not a response is put
aside, and afterwards it is forwarded to the context itself.

The context is one fork of an actor, and its mailbox is that of the actor: while the fork asks,
others send to it, and other forks receive, bind and end. So one step here is one step of the
mailbox or of `ask_impl`. The servers are elsewhere: what they are known by is the requests and the
replies that were made so far.

* `World.call`: the steps;
* `Steps`, `steps_of_call`: what a step does;
* `next_cases`: what a step of the mailbox means to the one who asks.
-/

namespace Mm1

open Mailbox Option

namespace Ask

/-- A message: a `Request`, a `Response` with a payload of a type, or something else. -/
inductive Letter (T Rq Rs X : Type) where
  | request (header : RequestHeader) (payload : Rq)
  | response (id : BitVec 64) (type : T) (payload : Rs)
  | other (message : X)
  deriving DecidableEq

/-- A request that `ask_impl` waits for, with its place among all requests. -/
structure Asked (T : Type) where
  request : ℕ
  id : BitVec 64
  type : T

/-- Where `ask_impl` is. A message that is put aside is kept with the lane that it came on. -/
inductive Client (T Rq Rs X : Type) where
  /-- the context does not ask -/
  | idle
  /-- in the loop -/
  | waiting (q : Asked T) (bystanders : List (Lane × Envelope (Letter T Rq Rs X)))
  /-- after the loop: what was put aside is forwarded; some of it was forwarded before -/
  | restoring (q : Asked T) (restored bystanders : List (Lane × Envelope (Letter T Rq Rs X)))
      (outcome : Except (ErrorOf AskErrorKind) Rs)

/-- The mailbox of an actor, one of whose forks asks, `REQUEST_ID`, and what the servers know. -/
structure World (T Rq Rs X : Type) where
  mailbox : SubnetContext (Letter T Rq Rs X)
  requestId : BitVec 64
  client : Client T Rq Rs X
  /-- the requests of all contexts, the earliest first -/
  requests : List RequestHeader
  /-- the replies, each with the place of its request -/
  replies : List (ℕ × T × Rs)

/-- A step. -/
inductive Label (T Rq Rs X : Type) where
  /-- a step of the mailbox, by whomever -/
  | mailbox (l : Mailbox.Label (Letter T Rq Rs X))
  /-- the fork calls `ask_nofork`; a server that is elsewhere accepts the request or not -/
  | ask (server : Address) (type : T) (payload : Rq) (isOpen : Bool)
      (elsewhere : Except SendErrorKind Unit)
  /-- the time is over -/
  | timeout
  /-- the next message is forwarded -/
  | forward (isOpen : Bool)
  /-- `ask_nofork` returns -/
  | finish
  /-- another context asks -/
  | elsewhere (replyTo : Address)
  /-- a server replies to a request -/
  | reply (request : ℕ) (type : T) (payload : Rs)

/-- What a step has done. -/
inductive Act (T Rq Rs X : Type) where
  | moved (marks : List (Mark (Letter T Rq Rs X)))
  | asked (request : ℕ) (marks : List (Mark (Letter T Rq Rs X)))
  | timedOut
  | forwarded (marks : List (Mark (Letter T Rq Rs X)))
  | returned (request : ℕ) (outcome : Except (ErrorOf AskErrorKind) Rs)
  | elsewhere
  | replied

/-- A step that was made. -/
abbrev Step (T Rq Rs X : Type) := History.Event (World T Rq Rs X) (Label T Rq Rs X) (Act T Rq Rs X)

/-- `Reply::reply`: to whom the response goes, and its envelope. -/
def reply {T Rq Rs X : Type} (dst : RequestHeader) (type : T) (response : Rs) :
    Address × Envelope (Letter T Rq Rs X) :=
  (dst.replyTo, ⟨EnvelopeHeader.defaultTtl, true, .other (.response dst.id type response)⟩)

end Ask

namespace Mailbox.SubnetContext

variable {M : Type} {s s' : SubnetContext M} {dst : Address} {e : Envelope M} {isOpen : Bool}
  {marks : List (Mark M)}

/-- The part that `do_send` and `do_forward` share, as far as it comes back to this mailbox. -/
def dispatch (s : SubnetContext M) (dst : Address) (e : Envelope M) (isOpen : Bool) :
    SubnetContext M × List (Mark M) :=
  match checkedPred e.ttl with
  | none => (s, [])
  | some ttl => s.sendTo dst (if e.priority then .priority else .regular) { e with ttl } isOpen

theorem moves_dispatch (hwf : s.Wf) (h : s.dispatch dst e isOpen = (s', marks)) :
    ∃ n lane e', e'.content = e.content ∧ Moves s (.send n dst lane e' isOpen) s' marks := by
  rw [dispatch] at h
  split at h
  · obtain ⟨rfl, rfl⟩ := Prod.mk.inj h
    exact ⟨0, .regular, e, rfl, .idle s.inlets⟩
  · rw [sendTo] at h
    split at h
    case h_1 =>
      obtain ⟨rfl, rfl⟩ := Prod.mk.inj h
      exact ⟨0, .regular, e, rfl, .idle s.inlets⟩
    case h_2 ttl _ _ n hlook =>
      exact ⟨n, _, { e with ttl }, rfl, moves_send (hwf.reachable hlook) h⟩

theorem dispatch_inlets (h : s.dispatch dst e isOpen = (s', marks)) : s'.inlets = s.inlets := by
  rw [dispatch] at h
  split at h
  · obtain ⟨rfl, rfl⟩ := Prod.mk.inj h
    rfl
  · rw [sendTo] at h
    split at h
    · obtain ⟨rfl, rfl⟩ := Prod.mk.inj h
      rfl
    · exact (congrArg (fun r => r.1.inlets) h).symm.trans send_frame.1

/-- What a fork sends to itself is accepted if there is a TTL, and a permit on the regular lane. -/
theorem dispatch_accepts (hwf : s.Wf) (halive : (s.forkEntries.lookup dst).isSome = true)
    {lane : Lane} (httl : e.ttl ≠ 0) (hlane : e.priority = true ↔ lane = .priority)
    (hfree : lane = .regular → ∀ n ∈ s.registry.lookup dst, s.available n ≠ 0) :
    ∃ m, (s.dispatch dst e true).2 = [.accepted lane m] ∧ m.dst = dst ∧
      m.envelope = { e with ttl := e.ttl - 1 } := by
  have hpred : checkedPred e.ttl = some (e.ttl - 1) := checkedPred_eq_some_iff.mpr ⟨httl, rfl⟩
  have hlook : s.registry.lookup dst = some 0 :=
    Registry.lookup_of_mem (hwf.registered dst halive) (hwf.forks dst halive)
  have hside : (if e.priority then Lane.priority else .regular) = lane := by
    cases lane with
    | priority => rw [if_pos (hlane.mpr rfl)]
    | regular => rw [if_neg fun h => by simpa using hlane.mp h]
  rw [dispatch, hpred]
  dsimp only
  rw [hside, sendTo, hlook]
  dsimp only
  cases lane with
  | priority => exact ⟨_, rfl, rfl, rfl⟩
  | regular =>
    rw [send, if_neg (hfree rfl 0 hlook)]
    exact ⟨_, rfl, rfl, rfl⟩

end Mailbox.SubnetContext

namespace Ask

variable {T Rq Rs X : Type} [DecidableEq T] {self : Address} {client : Client T Rq Rs X}
  {marks : List (Mark (Letter T Rq Rs X))}

namespace Client

def isIdle : Client T Rq Rs X → Bool
  | .idle => true
  | _ => false

def isWaiting : Client T Rq Rs X → Bool
  | .waiting _ _ => true
  | _ => false

omit [DecidableEq T] in
theorem eq_idle (h : client.isIdle = true) : client = .idle := by
  cases client with
  | idle => rfl
  | waiting | restoring => contradiction

omit [DecidableEq T] in
theorem eq_waiting (h : client.isWaiting = true) :
    ∃ q bystanders, client = .waiting q bystanders := by
  cases client with
  | waiting q bystanders => exact ⟨q, bystanders, rfl⟩
  | idle | restoring => contradiction

/-- The request was sent, or it was not. -/
def start (q : Asked T) : Except SendErrorKind Unit → Client T Rq Rs X
  | .ok () => .waiting q []
  | .error kind => .restoring q [] [] (.error ⟨.send kind, ""⟩)

/-- The body of the loop of `ask_impl`. -/
def receive (q : Asked T) (bystanders : List (Lane × Envelope (Letter T Rq Rs X))) (lane : Lane)
    (e : Envelope (Letter T Rq Rs X)) : Client T Rq Rs X :=
  match e.content with
  | .other (.response id type payload) =>
    -- `cast` looks at the type only; a response to another request is dropped
    if type = q.type then
      if id = q.id then .restoring q [] bystanders (.ok payload) else .waiting q bystanders
    else .waiting q (bystanders ++ [(lane, e)])
  | _ => .waiting q (bystanders ++ [(lane, e)])

/-- `recv` has returned a message to a fork. -/
def handle (self : Address) (client : Client T Rq Rs X) (mark : Mark (Letter T Rq Rs X)) :
    Client T Rq Rs X :=
  match client, mark with
  | .waiting q bystanders, .received fork lane m =>
    if fork = self then receive q bystanders lane m.envelope else client
  | _, _ => client

/-- A step of the mailbox, as `ask_impl` sees it: `recv` goes on, fails or returns a message. -/
def next (self : Address) (client : Client T Rq Rs X) (inlets : Option Inlets)
    (l : Mailbox.Label (Letter T Rq Rs X)) (marks : List (Mark (Letter T Rq Rs X))) :
    Client T Rq Rs X :=
  match client, l with
  | .waiting q bystanders, .fail reason =>
    if inlets.map Inlets.fork = some self then
      .restoring q [] bystanders (.error ⟨.recv .closed, reason⟩)
    else client
  | _, _ => marks.foldl (handle self) client

/-- What was forwarded. -/
def restored : Client T Rq Rs X → List (Lane × Envelope (Letter T Rq Rs X))
  | .restoring _ restored _ _ => restored
  | _ => []

/-- What is put aside. -/
def bystanders : Client T Rq Rs X → List (Lane × Envelope (Letter T Rq Rs X))
  | .waiting _ bystanders => bystanders
  | .restoring _ _ bystanders _ => bystanders
  | .idle => []

/-- What is asked for. -/
def asked : Client T Rq Rs X → Option (Asked T)
  | .waiting q _ => some q
  | .restoring q _ _ _ => some q
  | .idle => none

section Start

variable (q : Asked T) (answer : Except SendErrorKind Unit)

omit [DecidableEq T]

theorem restored_start : (start q answer : Client T Rq Rs X).restored = [] := by
  cases answer <;> rfl

theorem bystanders_start : (start q answer : Client T Rq Rs X).bystanders = [] := by
  cases answer <;> rfl

theorem asked_start : (start q answer : Client T Rq Rs X).asked = some q := by
  cases answer <;> rfl

end Start

/-- While the fork asks, it does nothing else; while it forwards, it does not receive. -/
def allows (self : Address) (client : Client T Rq Rs X) :
    Mailbox.Label (Letter T Rq Rs X) → Bool
  | .enter fork receives => fork ≠ self || client.isIdle || client.isWaiting && receives
  | .bind fork _ _ _ => fork ≠ self || client.isIdle
  | .drop fork => fork ≠ self || client.isIdle
  | _ => true

end Client

/-- The error of an ask that has waited too long. -/
def elapsed : ErrorOf AskErrorKind := ⟨.timeout, "timed out waiting for response"⟩

namespace World

/-- The actor before its first ask. -/
def init (subnet : NetAddress) (main : Address) (size : ℕ) : World T Rq Rs X :=
  ⟨.init subnet main size, 1, .idle, [], []⟩

/-- The fork is not in the middle of `process_inlets`. -/
def free (self : Address) (s : World T Rq Rs X) : Bool :=
  s.mailbox.inlets.map Inlets.fork ≠ some self

/-- The first part of `ask_impl`. -/
def ask (self : Address) (s : World T Rq Rs X) (server : Address) (type : T) (payload : Rq)
    (isOpen : Bool) (elsewhere : Except SendErrorKind Unit) : World T Rq Rs X × Act T Rq Rs X :=
  let header : RequestHeader := ⟨s.requestId, self⟩
  let sent := s.mailbox.dispatch server
    ⟨EnvelopeHeader.defaultTtl, false, .other (.request header payload)⟩ isOpen
  -- `Node::send` answers with an error if it does not accept
  let answer := if (s.mailbox.registry.lookup server).isSome then
      if sent.2.isEmpty then .error .closed else .ok ()
    else elsewhere
  let q : Asked T := ⟨s.requests.length, s.requestId, type⟩
  ({ s with
      mailbox := sent.1
      requestId := s.requestId + 1
      requests := s.requests ++ [header]
      client := .start q answer },
    .asked q.request sent.2)

/-- Make a step, if it can be made. -/
def call (self : Address) (s : World T Rq Rs X) :
    Label T Rq Rs X → Option (World T Rq Rs X × Act T Rq Rs X)
  | .mailbox l =>
    if s.client.allows self l then
      (s.mailbox.call l).map fun r =>
        ({ s with mailbox := r.1, client := s.client.next self s.mailbox.inlets l r.2 }, .moved r.2)
    else none
  | .ask server type payload isOpen elsewhere =>
    if s.client.isIdle && s.free self then some (s.ask self server type payload isOpen elsewhere)
    else none
  | .timeout =>
    match s.client with
    | .waiting q bystanders =>
      if s.free self then
        some ({ s with client := .restoring q [] bystanders (.error elapsed) }, .timedOut)
      else none
    | _ => none
  | .forward isOpen =>
    match s.client with
    | .restoring q restored (b :: bystanders) outcome =>
      some ({ s with
          mailbox := (s.mailbox.dispatch self b.2 isOpen).1
          client := .restoring q (restored ++ [b]) bystanders outcome },
        .forwarded (s.mailbox.dispatch self b.2 isOpen).2)
    | _ => none
  | .finish =>
    match s.client with
    | .restoring q _ [] outcome => some ({ s with client := .idle }, .returned q.request outcome)
    | _ => none
  | .elsewhere replyTo =>
    some ({ s with
        requestId := s.requestId + 1
        requests := s.requests ++ [⟨s.requestId, replyTo⟩] }, .elsewhere)
  | .reply request type payload =>
    if request < s.requests.length then
      some ({ s with replies := s.replies ++ [(request, type, payload)] }, .replied)
    else none

end World

/-! ### What a step can do -/

/-- The steps. -/
inductive Steps (self : Address) (s : World T Rq Rs X) :
    Label T Rq Rs X → World T Rq Rs X → Act T Rq Rs X → Prop
  | mailbox {l : Mailbox.Label (Letter T Rq Rs X)} {mailbox : SubnetContext (Letter T Rq Rs X)}
      {marks : List (Mark (Letter T Rq Rs X))} (hallows : s.client.allows self l = true)
      (hmailbox : s.mailbox.call l = some (mailbox, marks)) :
      Steps self s (.mailbox l)
        { s with mailbox, client := s.client.next self s.mailbox.inlets l marks } (.moved marks)
  | ask {server : Address} {type : T} {payload : Rq} {isOpen : Bool}
      {elsewhere answer : Except SendErrorKind Unit} {mailbox : SubnetContext (Letter T Rq Rs X)}
      {marks : List (Mark (Letter T Rq Rs X))} (hidle : s.client = .idle)
      (hfree : s.mailbox.inlets.map Inlets.fork ≠ some self)
      (hdispatch : s.mailbox.dispatch server ⟨EnvelopeHeader.defaultTtl, false,
        .other (.request ⟨s.requestId, self⟩ payload)⟩ isOpen = (mailbox, marks)) :
      Steps self s (.ask server type payload isOpen elsewhere)
        ⟨mailbox, s.requestId + 1, .start ⟨s.requests.length, s.requestId, type⟩ answer,
          s.requests ++ [⟨s.requestId, self⟩], s.replies⟩ (.asked s.requests.length marks)
  | timeout {q : Asked T} {bystanders : List (Lane × Envelope (Letter T Rq Rs X))}
      (hclient : s.client = .waiting q bystanders)
      (hfree : s.mailbox.inlets.map Inlets.fork ≠ some self) :
      Steps self s .timeout { s with client := .restoring q [] bystanders (.error elapsed) }
        .timedOut
  | forward {q : Asked T} {restored bystanders : List (Lane × Envelope (Letter T Rq Rs X))}
      {b : Lane × Envelope (Letter T Rq Rs X)} {outcome : Except (ErrorOf AskErrorKind) Rs}
      {isOpen : Bool} (hclient : s.client = .restoring q restored (b :: bystanders) outcome) :
      Steps self s (.forward isOpen)
        { s with
          mailbox := (s.mailbox.dispatch self b.2 isOpen).1
          client := .restoring q (restored ++ [b]) bystanders outcome }
        (.forwarded (s.mailbox.dispatch self b.2 isOpen).2)
  | finish {q : Asked T} {restored : List (Lane × Envelope (Letter T Rq Rs X))}
      {outcome : Except (ErrorOf AskErrorKind) Rs}
      (hclient : s.client = .restoring q restored [] outcome) :
      Steps self s .finish { s with client := .idle } (.returned q.request outcome)
  | elsewhere {replyTo : Address} :
      Steps self s (.elsewhere replyTo)
        { s with
          requestId := s.requestId + 1
          requests := s.requests ++ [⟨s.requestId, replyTo⟩] } .elsewhere
  | reply {request : ℕ} {type : T} {payload : Rs} (hrequest : request < s.requests.length) :
      Steps self s (.reply request type payload)
        { s with replies := s.replies ++ [(request, type, payload)] } .replied

/-- All that a call of the world can do. -/
theorem steps_of_call {s s' : World T Rq Rs X} {label : Label T Rq Rs X} {act : Act T Rq Rs X}
    (h : s.call self label = some (s', act)) : Steps self s label s' act := by
  cases label with
  | mailbox l =>
    rw [World.call] at h
    split at h
    case isFalse => contradiction
    case isTrue hallows =>
      obtain ⟨⟨mailbox, marks⟩, hmailbox, heq⟩ := map_eq_some_iff.mp h
      obtain ⟨rfl, rfl⟩ := Prod.mk.inj heq
      exact .mailbox hallows hmailbox
  | ask server type payload isOpen elsewhere =>
    rw [World.call] at h
    split at h
    case isFalse => contradiction
    case isTrue hguard =>
      obtain ⟨hidle, hfree⟩ := Bool.and_eq_true_iff.mp hguard
      obtain ⟨rfl, rfl⟩ := Prod.mk.inj (some.inj h)
      exact .ask (Client.eq_idle hidle) (by simpa [World.free] using hfree) rfl
  | timeout =>
    rw [World.call] at h
    split at h
    case h_2 => contradiction
    case h_1 q bystanders hclient =>
      split at h
      case isFalse => contradiction
      case isTrue hfree =>
        obtain ⟨rfl, rfl⟩ := Prod.mk.inj (some.inj h)
        exact .timeout hclient (by simpa [World.free] using hfree)
  | forward isOpen =>
    rw [World.call] at h
    split at h
    case h_2 => contradiction
    case h_1 q restored b bystanders outcome hclient =>
      obtain ⟨rfl, rfl⟩ := Prod.mk.inj (some.inj h)
      exact .forward hclient
  | finish =>
    rw [World.call] at h
    split at h
    case h_2 => contradiction
    case h_1 q restored outcome hclient =>
      obtain ⟨rfl, rfl⟩ := Prod.mk.inj (some.inj h)
      exact .finish hclient
  | elsewhere replyTo =>
    obtain ⟨rfl, rfl⟩ := Prod.mk.inj (some.inj h)
    exact .elsewhere
  | reply request type payload =>
    rw [World.call] at h
    split at h
    case isFalse => contradiction
    case isTrue hrequest =>
      obtain ⟨rfl, rfl⟩ := Prod.mk.inj (some.inj h)
      exact .reply hrequest

/-! ### Steps of the mailbox -/

private theorem foldl_handle (h : ∀ lane m, .received self lane m ∉ marks) :
    marks.foldl (Client.handle self) client = client := by
  induction marks with
  | nil => rfl
  | cons mark marks ih =>
    have hhead : client.handle self mark = client := by
      rw [Client.handle.eq_def]
      split
      case h_1 q bystanders fork lane m =>
        refine if_neg ?_
        rintro rfl
        exact h lane m List.mem_cons_self
      case h_2 => rfl
    rw [List.foldl_cons, hhead]
    exact ih fun lane m hmark => h lane m (List.mem_cons_of_mem _ hmark)

/-- **What a step of the mailbox means to the one who asks**: `recv` returns a message to it, or
fails, or it does not notice the step. -/
theorem next_cases {s s' : SubnetContext (Letter T Rq Rs X)} {l : Mailbox.Label (Letter T Rq Rs X)}
    (hwf : s.Wf) (hcall : s.call l = some (s', marks)) (self : Address)
    (client : Client T Rq Rs X) :
    (∃ lane m, marks = [.received self lane m] ∧ s.inlets.map Inlets.fork = some self ∧
        m ∈ s.inboxOf self lane ∧ s'.inlets = none ∧
        client.next self s.inlets l marks = client.handle self (.received self lane m)) ∨
      (∀ lane, receivedBy self lane marks = []) ∧
        (client.next self s.inlets l marks = client ∨ ∃ q bystanders reason,
          client = .waiting q bystanders ∧ s'.inlets = none ∧
          client.next self s.inlets l marks =
            .restoring q [] bystanders (.error ⟨.recv .closed, reason⟩)) := by
  have hfail : ∀ reason, l = .fail reason → marks = [] ∧ s'.inlets = none := by
    rintro reason rfl
    obtain ⟨i, -, hfail⟩ := map_eq_some_iff.mp hcall
    obtain ⟨rfl, rfl⟩ := Prod.mk.inj hfail
    exact ⟨rfl, rfl⟩
  by_cases hself : ∃ lane m, .received self lane m ∈ marks
  · obtain ⟨lane, m, hmark⟩ := hself
    rcases SubnetContext.received_cases (SubnetContext.moves_of_call hwf hcall) with
      hnone | ⟨i, lane', m', entry, rfl, hi, -, hentry, hm, -, hinlets⟩
    · exact absurd hmark (hnone self lane m)
    · obtain ⟨rfl, rfl, rfl⟩ := Mark.received.inj (List.mem_singleton.mp hmark)
      refine .inl ⟨lane, m, rfl, by rw [hi]; rfl, ?_, hinlets, ?_⟩
      · rw [SubnetContext.inboxOf, hentry]
        exact hm
      · rw [Client.next.eq_def]
        split
        · exact absurd (hfail _ rfl).1 (List.cons_ne_nil _ _)
        · rfl
  · have hnone : ∀ lane m, .received self lane m ∉ marks := fun lane m hmark =>
      hself ⟨lane, m, hmark⟩
    refine .inr ⟨fun lane => ?_, ?_⟩
    · exact List.eq_nil_iff_forall_not_mem.mpr fun m hm => hnone lane m (received_of_mem hm)
    · rw [Client.next.eq_def]
      split
      case h_1 q bystanders reason =>
        split
        · exact .inr ⟨q, bystanders, reason, rfl, (hfail reason rfl).2, rfl⟩
        · exact .inl rfl
      case h_2 => exact .inl (foldl_handle hnone)

end Ask

end Mm1
