import Mathlib.Algebra.Group.Nat.Defs
import Mm1.Ask.Bystanders

/-!
# Which request a payload is for

A server replies to a request with `Reply::reply`, and its response may come late, or twice, or
after the response to a later request. `ask_impl` knows it by the id. All contexts take the ids from
one counter; as long as the counter does not wrap, no two requests have the same id, and so a
response that has the id of a request was made for it.

* `Genuine`: what a server has made, if it is a response;
* `Sound`: what holds in every run in which all responses are genuine;
* `payload_of_this_request`: an ask returns what a server has replied to its own request.
-/

namespace Mm1

open Mailbox List SubnetContext Transition

namespace Ask

variable {T Rq Rs X : Type} {mailbox : SubnetContext (Letter T Rq Rs X)} {act : Act T Rq Rs X}
  {label : Label T Rq Rs X} {bystanders : List (Lane × Envelope (Letter T Rq Rs X))}
  {marks : List (Mark (Letter T Rq Rs X))} {q : Asked T} {s' : World T Rq Rs X} {isOpen : Bool}
  {payload : Rs} {lane : Lane} {type : T}

/-! ### Responses that are replies -/

/-- It is a `Response`, of whatever type. -/
def isResponse : Content (Letter T Rq Rs X) → Bool
  | .other (.response _ _ _) => true
  | _ => false

/-- If it is a response, a server has made it as a reply to one of the requests. -/
def Genuine (requests : List RequestHeader) (replies : List (ℕ × T × Rs))
    (c : Content (Letter T Rq Rs X)) : Prop :=
  isResponse c = true → ∃ r ∈ replies, ∃ header ∈ requests[r.1]?,
    c = (reply header r.2.1 r.2.2).2.content

/-- What is sent to the mailbox. -/
def Label.sent : Label T Rq Rs X → Option (Content (Letter T Rq Rs X))
  | .mailbox (.send _ _ _ envelope _) => some envelope.content
  | _ => none

/-- An id is taken. -/
def Label.fetches : Label T Rq Rs X → Bool
  | .ask _ _ _ _ _ => true
  | .elsewhere _ => true
  | _ => false

/-- The servers answer with `Reply::reply`, and `REQUEST_ID` does not wrap. A reply may be sent any
number of times, at any time after it was made. -/
def Fair (s : World T Rq Rs X) (l : Label T Rq Rs X) : Prop :=
  (∀ c ∈ l.sent, Genuine s.requests s.replies c) ∧
    (l.fetches = true → s.requestId.toNat + 1 < 2 ^ 64)

instance [DecidableEq T] [DecidableEq Rq] [DecidableEq Rs] [DecidableEq X]
    (requests : List RequestHeader) (replies : List (ℕ × T × Rs)) (c : Content (Letter T Rq Rs X)) :
    Decidable (Genuine requests replies c) :=
  inferInstanceAs (Decidable (_ → ∃ r ∈ replies, _))

instance [DecidableEq T] [DecidableEq Rq] [DecidableEq Rs] [DecidableEq X] (s : World T Rq Rs X)
    (l : Label T Rq Rs X) : Decidable (Fair s l) :=
  inferInstanceAs (Decidable (_ ∧ (_ → _)))

private theorem request_append {requests more : List RequestHeader} {j : ℕ} {header : RequestHeader}
    (h : requests[j]? = some header) : (requests ++ more)[j]? = some header := by
  rw [List.getElem?_append_left (List.getElem?_eq_some_iff.mp h).1, h]

private theorem Genuine.append {requests : List RequestHeader} {replies : List (ℕ × T × Rs)}
    {c : Content (Letter T Rq Rs X)} (h : Genuine requests replies c) (more : List RequestHeader)
    (later : List (ℕ × T × Rs)) : Genuine (requests ++ more) (replies ++ later) c := by
  intro hc
  obtain ⟨r, hr, header, hheader, hcontent⟩ := h hc
  exact ⟨r, mem_append_left _ hr, header, request_append hheader, hcontent⟩

/-! ### The last ask -/

/-- The type of the response that is asked for. -/
def Label.asks : Label T Rq Rs X → Option T
  | .ask _ type _ _ _ => some type
  | _ => none

/-- The request that was made, as its place among all requests. -/
def Act.request : Act T Rq Rs X → Option ℕ
  | .asked request _ => some request
  | _ => none

/-- The last ask. -/
def lastAsk (log : List (Step T Rq Rs X)) : Option (Step T Rq Rs X) :=
  log.find? fun e => e.label.asks.isSome

/-- What has happened since the last ask. -/
def sinceAsk (log : List (Step T Rq Rs X)) : List (Step T Rq Rs X) :=
  log.takeWhile fun e => e.label.asks.isNone

section Log

variable {e : Step T Rq Rs X} {log : List (Step T Rq Rs X)}

private theorem lastAsk_cons (h : e.label.asks = none) : lastAsk (e :: log) = lastAsk log := by
  simp [lastAsk, h]

private theorem sinceAsk_cons (h : e.label.asks = none) :
    sinceAsk (e :: log) = e :: sinceAsk log := by
  simp [sinceAsk, h]

end Log

/-- The payload that an ask is going to return. -/
def Client.response : Client T Rq Rs X → Option Rs
  | .restoring _ _ _ outcome => outcome.toOption
  | _ => none

/-! ### Runs -/

/-- What holds of the request that a context waits for: the context has made it, in the last ask,
and a reply to it was made since. -/
structure Pending (a : Address) (s : World T Rq Rs X) (log : List (Step T Rq Rs X)) (q : Asked T) :
    Prop where
  made : s.requests[q.request]? = some ⟨q.id, a⟩
  last : ∃ e ∈ lastAsk log, e.label.asks = some q.type ∧ e.output.request = some q.request
  replied : ∀ r ∈ s.replies, r.1 = q.request →
    ∃ e ∈ sinceAsk log, e.label = .reply r.1 r.2.1 r.2.2
  response : ∀ payload ∈ s.client.response, (q.request, q.type, payload) ∈ s.replies

/-- What holds in every run in which all responses are genuine. -/
structure Sound (a : Address) (s : World T Rq Rs X) (log : List (Step T Rq Rs X)) : Prop where
  wf : s.mailbox.Wf
  counter : s.requestId.toNat = s.requests.length + 1
  ids : ∀ j header, s.requests[j]? = some header → header.id.toNat = j + 1
  earlier : ∀ r ∈ s.replies, r.1 < s.requests.length
  held : ∀ m ∈ s.mailbox.held, Genuine s.requests s.replies m.envelope.content
  aside : ∀ b ∈ s.client.bystanders, Genuine s.requests s.replies b.2.content
  pending : ∀ q ∈ s.client.asked, Pending a s log q

section Steps

variable {self : Address} {s : World T Rq Rs X} {log : List (Step T Rq Rs X)}
  {e : Envelope (Letter T Rq Rs X)}

/-- No two requests have the same id. -/
private theorem Sound.eq_of_id (h : Sound self s log) {j k : ℕ} {header header' : RequestHeader}
    (hj : s.requests[j]? = some header) (hk : s.requests[k]? = some header')
    (hid : header.id = header'.id) : j = k := by
  have hj := h.ids j header hj
  have hk := h.ids k header' hk
  rw [hid] at hj
  omega

private theorem Sound.nodup (h : Sound self s log) : (s.requests.map RequestHeader.id).Nodup := by
  refine nodup_iff_injective_getElem.mpr fun j k hjk => Fin.ext ?_
  have hlen : (s.requests.map RequestHeader.id).length = s.requests.length := length_map _
  refine h.eq_of_id (List.getElem?_eq_getElem (hlen ▸ j.2))
    (List.getElem?_eq_getElem (hlen ▸ k.2)) ?_
  simpa using hjk

/-- An id is taken. -/
private theorem Sound.fetch (h : Sound self s log) (hwrap : s.requestId.toNat + 1 < 2 ^ 64)
    (replyTo : Address) :
    (s.requestId + 1).toNat = (s.requests ++ [RequestHeader.mk s.requestId replyTo]).length + 1 ∧
      ∀ j header, (s.requests ++ [RequestHeader.mk s.requestId replyTo])[j]? = some header →
        header.id.toNat = j + 1 := by
  have hcounter := h.counter
  refine ⟨?_, fun j header hj => ?_⟩
  · rw [BitVec.toNat_add, length_append, length_singleton, ← hcounter]
    exact Nat.mod_eq_of_lt hwrap
  · rw [List.getElem?_append] at hj
    split at hj
    · exact h.ids j header hj
    · rw [List.getElem?_singleton] at hj
      split at hj
      case isFalse => contradiction
      case isTrue hlast =>
        obtain rfl := Option.some.inj hj
        dsimp only
        omega

/-- Steps other than an ask. -/
private theorem Pending.cons (h : Pending self s log q) (hlabel : label.asks = none)
    (hmade : s'.requests[q.request]? = some ⟨q.id, self⟩)
    (hreplies : ∀ r ∈ s'.replies, r ∈ s.replies ∨ label = .reply r.1 r.2.1 r.2.2)
    (hresponse : ∀ payload ∈ s'.client.response, (q.request, q.type, payload) ∈ s'.replies) :
    Pending self s' (⟨s, label, act⟩ :: log) q where
  made := hmade
  last := by
    rw [lastAsk_cons hlabel]
    exact h.last
  replied r hr hrequest := by
    rw [sinceAsk_cons hlabel]
    rcases hreplies r hr with hold | hnew
    · obtain ⟨e, he, hreply⟩ := h.replied r hold hrequest
      exact ⟨e, mem_cons_of_mem _ he, hreply⟩
    · exact ⟨_, mem_cons_self, hnew⟩
  response := hresponse

/-- A step that makes neither a request nor a reply. -/
private theorem Sound.move (h : Sound self s log) {client : Client T Rq Rs X} (hwf : mailbox.Wf)
    (hheld : ∀ m ∈ mailbox.held, Genuine s.requests s.replies m.envelope.content)
    (haside : ∀ b ∈ client.bystanders, Genuine s.requests s.replies b.2.content)
    (hasked : ∀ q ∈ client.asked, q ∈ s.client.asked)
    (hresponse : ∀ q ∈ client.asked, ∀ payload ∈ client.response,
      (q.request, q.type, payload) ∈ s.replies)
    (hlabel : label.asks = none) :
    Sound self { s with mailbox, client } (⟨s, label, act⟩ :: log) where
  wf := hwf
  counter := h.counter
  ids := h.ids
  earlier := h.earlier
  held := hheld
  aside := haside
  pending q hq := by
    have hpending := h.pending q (hasked q hq)
    refine hpending.cons hlabel ?_ ?_ ?_
    · exact hpending.made
    · exact fun _ hr => .inl hr
    · exact hresponse q hq

/-- Another context asks. -/
private theorem Sound.step_elsewhere (h : Sound self s log) (hwrap : s.requestId.toNat + 1 < 2 ^ 64)
    {replyTo : Address} :
    Sound self { s with
        requestId := s.requestId + 1
        requests := s.requests ++ [⟨s.requestId, replyTo⟩] }
      (⟨s, .elsewhere replyTo, act⟩ :: log) := by
  obtain ⟨hcounter, hids⟩ := h.fetch hwrap replyTo
  refine ⟨h.wf, hcounter, hids, fun r hr => ?_, fun m hm => ?_, fun b hb => ?_, fun q hq => ?_⟩
  · rw [length_append]
    exact Nat.lt_add_right 1 (h.earlier r hr)
  · simpa using (h.held m hm).append [⟨s.requestId, replyTo⟩] []
  · simpa using (h.aside b hb).append [⟨s.requestId, replyTo⟩] []
  · have hpending := h.pending q hq
    refine hpending.cons (by rfl) ?_ ?_ ?_
    · exact request_append hpending.made
    · exact fun _ hr => .inl hr
    · exact hpending.response

/-- A server replies. -/
private theorem Sound.step_reply (h : Sound self s log) {request : ℕ}
    (hrequest : request < s.requests.length) :
    Sound self { s with replies := s.replies ++ [(request, type, payload)] }
      (⟨s, .reply request type payload, act⟩ :: log) := by
  refine ⟨h.wf, h.counter, h.ids, fun r hr => ?_, fun m hm => ?_, fun b hb => ?_, fun q hq => ?_⟩
  · rcases mem_append.mp hr with hold | hnew
    · exact h.earlier r hold
    · obtain rfl := mem_singleton.mp hnew
      exact hrequest
  · simpa using (h.held m hm).append [] [(request, type, payload)]
  · simpa using (h.aside b hb).append [] [(request, type, payload)]
  · have hpending := h.pending q hq
    refine hpending.cons (by rfl) ?_ (fun r hr => ?_) fun payload' hpayload => ?_
    · exact hpending.made
    · rcases mem_append.mp hr with hold | hnew
      · exact .inl hold
      · obtain rfl := mem_singleton.mp hnew
        exact .inr rfl
    · exact mem_append_left _ (hpending.response payload' hpayload)

/-- What the context forwards or sends leaves only genuine responses in the mailbox. -/
private theorem Sound.held_of_dispatch (h : Sound self s log) {dst : Address}
    (hdispatch : s.mailbox.dispatch dst e isOpen = (mailbox, marks))
    (he : Genuine s.requests s.replies e.content) :
    mailbox.Wf ∧ ∀ m ∈ mailbox.held, Genuine s.requests s.replies m.envelope.content := by
  obtain ⟨n, lane, e', hcontent, hmove⟩ := moves_dispatch h.wf hdispatch
  refine ⟨h.wf.moves hmove, held_of_moves hmove h.held ?_ ?_⟩
  · rintro _ _ _ _ _ ⟨rfl⟩
    rw [hcontent]
    exact he
  · exact fun _ hping => by contradiction

/-- The context asks. -/
private theorem Sound.step_ask (h : Sound self s log) (hwrap : s.requestId.toNat + 1 < 2 ^ 64)
    {server : Address} {payload : Rq} {elsewhere answer : Except SendErrorKind Unit}
    (hdispatch : s.mailbox.dispatch server
      ⟨EnvelopeHeader.defaultTtl, false, .other (.request ⟨s.requestId, self⟩ payload)⟩ isOpen =
        (mailbox, marks)) :
    Sound self ⟨mailbox, s.requestId + 1, .start ⟨s.requests.length, s.requestId, type⟩ answer,
        s.requests ++ [⟨s.requestId, self⟩], s.replies⟩
      (⟨s, .ask server type payload isOpen elsewhere, .asked s.requests.length marks⟩ :: log) := by
  obtain ⟨hcounter, hids⟩ := h.fetch hwrap self
  obtain ⟨hwf, hheld⟩ := h.held_of_dispatch hdispatch fun hresponse => by contradiction
  refine ⟨hwf, hcounter, hids, fun r hr => ?_, fun m hm => ?_, ?_, ?_⟩
  · rw [length_append]
    exact Nat.lt_add_right 1 (h.earlier r hr)
  · simpa using (hheld m hm).append [⟨s.requestId, self⟩] []
  · rw [Client.bystanders_start]
    exact fun _ hb => absurd hb not_mem_nil
  · rw [Client.asked_start]
    rintro _ ⟨rfl⟩
    refine ⟨List.getElem?_concat_length, ⟨_, rfl, rfl, rfl⟩, fun r hr hrequest => ?_, ?_⟩
    · -- the replies so far are replies to other requests
      exact absurd hrequest (h.earlier r hr).ne
    · cases answer <;> exact fun _ hpayload => by contradiction

variable [DecidableEq T]

/-- What the loop returns is the payload of a response with the id that it waits for. -/
private theorem response_of_receive
    (h : (Client.receive q bystanders lane e).response = some payload) :
    e.content = .other (.response q.id q.type payload) := by
  rw [Client.receive.eq_def] at h
  split at h
  case h_2 => contradiction
  case h_1 id type payload' hcontent =>
    split at h
    case isFalse => contradiction
    case isTrue htype =>
      split at h
      case isFalse => contradiction
      case isTrue hid =>
        obtain rfl : payload' = payload := Option.some.inj h
        rw [hcontent, hid, htype]

/-- `recv` returns a message to the one who asks. -/
private theorem Sound.receive (h : Sound self s log) (hclient : s.client = .waiting q bystanders)
    (he : Genuine s.requests s.replies e.content) (hwf : mailbox.Wf)
    (hheld : ∀ m ∈ mailbox.held, Genuine s.requests s.replies m.envelope.content)
    (hlabel : label.asks = none) :
    Sound self { s with mailbox, client := .receive q bystanders lane e }
      (⟨s, label, act⟩ :: log) := by
  obtain ⟨hasked, -, haside⟩ := receive_spec q bystanders lane e
  have hpending := h.pending q (by rw [hclient]; rfl)
  refine h.move hwf hheld ?_ ?_ ?_ hlabel
  · intro b hb
    rw [haside] at hb
    rcases mem_append.mp hb with hold | hnew
    · exact h.aside b (by rw [hclient]; exact hold)
    · split at hnew
      · obtain rfl := mem_singleton.mp hnew
        exact he
      · exact absurd hnew not_mem_nil
  · rw [hasked, hclient]
    exact fun _ hq => hq
  · rw [hasked]
    rintro _ ⟨rfl⟩ payload hpayload
    have hcontent := response_of_receive hpayload
    obtain ⟨⟨j, type, payload'⟩, hr, header, hheader, hreply⟩ := he (by rw [hcontent]; rfl)
    -- the reply was made to a request with the same id, so to the same request
    obtain ⟨hid, rfl, rfl⟩ : q.id = header.id ∧ q.type = type ∧ payload = payload' := by
      simpa [reply] using hcontent.symm.trans hreply
    rw [h.eq_of_id hpending.made hheader hid]
    exact hr

/-- **Every step** of a run in which all responses are genuine. -/
theorem Sound.step (h : Sound self s log) (hok : Fair s label)
    (hcall : s.call self label = some (s', act)) : Sound self s' (⟨s, label, act⟩ :: log) := by
  obtain ⟨hgenuine, hwrap⟩ := hok
  cases steps_of_call hcall with
  | @mailbox l mailbox marks hallows hmailbox =>
    have hmove := moves_of_call h.wf hmailbox
    have hwf := h.wf.moves hmove
    have hheld : ∀ m ∈ mailbox.held, Genuine s.requests s.replies m.envelope.content := by
      refine held_of_moves hmove h.held ?_ fun _ hping => by contradiction
      rintro n dst lane envelope isOpen rfl
      exact hgenuine envelope.content rfl
    -- a step that the one who asks does not notice
    have hsame : Sound self { s with mailbox } (⟨s, .mailbox l, .moved marks⟩ :: log) :=
      h.move hwf hheld h.aside (fun _ hq => hq) (fun q hq => (h.pending q hq).response) rfl
    rcases next_cases h.wf hmailbox self s.client with
      ⟨lane, m, rfl, -, hm, -, hnext⟩ | ⟨-, hnext | ⟨q, bystanders, reason, hclient, -, hnext⟩⟩
    · rw [hnext, Client.handle.eq_def]
      split
      case h_2 => exact hsame
      case h_1 q bystanders fork lane' m' hclient hmark =>
        obtain ⟨rfl, rfl, rfl⟩ := Mark.received.inj hmark
        rw [if_pos rfl]
        exact h.receive hclient (h.held m (mem_held_of_inboxOf hm)) hwf hheld rfl
    · rw [hnext]
      exact hsame
    · rw [hnext]
      refine h.move hwf hheld ?_ ?_ ?_ rfl
      · intro b hb
        exact h.aside b (by rw [hclient]; exact hb)
      · rw [hclient]
        exact fun _ hq => hq
      · exact fun _ _ _ hpayload => by contradiction
  | ask hidle hfree hdispatch => exact h.step_ask (hwrap rfl) hdispatch
  | timeout hclient =>
    refine h.move h.wf h.held ?_ ?_ ?_ rfl
    · intro b hb
      exact h.aside b (by rw [hclient]; exact hb)
    · rw [hclient]
      exact fun _ hq => hq
    · exact fun _ _ _ hpayload => by contradiction
  | @forward q restored bystanders b outcome isOpen hclient =>
    have hb := h.aside b (by rw [hclient]; exact mem_cons_self)
    obtain ⟨hwf, hheld⟩ := h.held_of_dispatch
      (Prod.eta (s.mailbox.dispatch self b.2 isOpen)).symm hb
    refine h.move hwf hheld ?_ ?_ ?_ rfl
    · intro c hc
      exact h.aside c (by rw [hclient]; exact mem_cons_of_mem _ hc)
    · rw [hclient]
      exact fun _ hq => hq
    · intro q' hq' payload hpayload
      refine (h.pending q' ?_).response payload ?_
      · rw [hclient]
        exact hq'
      · rw [hclient]
        exact hpayload
  | finish hclient =>
    refine h.move h.wf h.held ?_ ?_ ?_ rfl
    · exact fun _ hb => absurd hb not_mem_nil
    · exact fun _ hq => by contradiction
    · exact fun _ hq => by contradiction
  | elsewhere => exact h.step_elsewhere (hwrap rfl)
  | reply hrequest => exact h.step_reply hrequest

end Steps

variable {self main : Address} {subnet : NetAddress} {size : ℕ}

private theorem sound_init (hmain : (AddressRange.ofNet subnet).Mem main) :
    Sound self (World.init subnet main size : World T Rq Rs X) [] where
  wf := (inv_init hmain).wf
  counter := rfl
  ids j header hj := by simp [World.init] at hj
  earlier r hr := absurd hr not_mem_nil
  held m hm := by
    rw [World.init, held_init] at hm
    exact absurd hm not_mem_nil
  aside b hb := absurd hb not_mem_nil
  pending q hq := by contradiction

variable [DecidableEq T]

private theorem client_of_returned {s s' : World T Rq Rs X} {request : ℕ}
    {outcome : Except (ErrorOf AskErrorKind) Rs}
    (h : Steps self s label s' (.returned request outcome)) :
    ∃ q restored, s.client = .restoring q restored [] outcome ∧ q.request = request := by
  cases h with
  | finish hclient => exact ⟨_, _, hclient, rfl⟩

/-- **An ask returns what a server has replied to its own request.** In every run of a context that
asks any number of times, with any interleaving, whenever an ask returns a payload: a server has
made it, since this ask has begun, as a reply to the request of this ask; and since no two requests
have the same id, no reply to another request could have been taken for it. -/
theorem payload_of_this_request (hmain : (AddressRange.ofNet subnet).Mem main)
    {s : History.Logged (World T Rq Rs X) (Label T Rq Rs X) (Act T Rq Rs X)}
    (hrun : Reaches (History.step (World.call self)) (fun s l => Fair s.state l)
      (.start (World.init subnet main size)) s)
    {later earlier : List (Step T Rq Rs X)} {e : Step T Rq Rs X}
    (hlog : s.log = later ++ e :: earlier) {request : ℕ} {payload : Rs}
    (hreturned : e.output = .returned request (.ok payload)) :
    (∃ ask ∈ lastAsk earlier, ask.output.request = some request ∧ ∃ type ∈ ask.label.asks,
      ∃ reply ∈ sinceAsk earlier, reply.label = .reply request type payload) ∧
      (e.before.requests.map RequestHeader.id).Nodup := by
  obtain ⟨hbefore, s', hcall⟩ := History.reaches_of_log_eq hrun hlog
  have hsound : Sound self e.before earlier :=
    History.log_invariant hbefore (sound_init hmain) fun h hok hcall => h.step hok hcall
  refine ⟨?_, hsound.nodup⟩
  rw [hreturned] at hcall
  obtain ⟨q, restored, hclient, rfl⟩ := client_of_returned (steps_of_call hcall)
  have hpending := hsound.pending q (by rw [hclient]; rfl)
  have hpayload := hpending.response payload (by rw [hclient]; rfl)
  obtain ⟨ask, hask, htype, hrequest⟩ := hpending.last
  obtain ⟨reply, hreply, hlabel⟩ := hpending.replied _ hpayload rfl
  exact ⟨ask, hask, hrequest, q.type, htype, reply, hreply, hlabel⟩

/-- Two asks: the first one is over before its reply comes, and the second one drops that reply and
waits for its own. -/
theorem payload_of_this_request_late :
    ∃ s : History.Logged (World Unit Unit ℕ ℕ) (Label Unit Unit ℕ ℕ) (Act Unit Unit ℕ ℕ),
      Reaches (History.step (World.call ⟨16#64⟩)) (fun s l => Fair s.state l)
        (.start (World.init actorNet ⟨16#64⟩ 2)) s ∧
      ∃ e earlier, s.log = e :: earlier ∧
        ∃ ask ∈ lastAsk earlier, ask.output.request = some 1 ∧ ∃ type ∈ ask.label.asks,
          ∃ reply ∈ sinceAsk earlier, reply.label = .reply 1 type 8 := by
  have hreach : Reaches (History.step (World.call ⟨16#64⟩)) (fun s l => Fair s.state l)
      (.start (World.init actorNet ⟨16#64⟩ 2 : World Unit Unit ℕ ℕ)) _ := reaches_get
    [.ask ⟨99#64⟩ () () true (.ok ()), .reply 0 () 7, .timeout, .finish,
            .ask ⟨99#64⟩ () () true (.ok ()), .reply 1 () 8,
            .mailbox (.send 0 ⟨16#64⟩ .priority ⟨14, true, .other (.response 1 () 7)⟩ true),
            .mailbox (.send 0 ⟨16#64⟩ .priority ⟨14, true, .other (.response 2 () 8)⟩ true),
            .mailbox (.enter ⟨16#64⟩ true), .mailbox (.turn true), .mailbox (.turn true),
            .mailbox (.stop false), .mailbox (.stop false),
            .mailbox (.enter ⟨16#64⟩ true), .mailbox (.stop false), .mailbox (.stop false),
            .finish] (by decide)
  exact ⟨_, hreach, _, _, rfl, (payload_of_this_request (by decide) hreach
    (show _ = [] ++ _ :: _ from rfl) rfl).1⟩

end Ask

end Mm1
