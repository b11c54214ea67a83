import Mm1.Ask.Client
import Mm1.NameService.Expiry

/-!
# The clients of the name server

`Registration::run` registers an address under a name for some time, and registers it again before
that time is over. `Resolver::resolve` asks who has the name, and the `Resolution` is what the
client remembers of the answer. It uses an address for as long as the server has said, counted from
the time when it asked.

All of them read the same clock. A client that sleeps until some time, or waits for an answer until
some time, may go on a little later: by no more than `slack`.

* `Naming.step`: the server, the loop of a `Registration`, and the requests of others;
* `resolves_while_running`: while the loop goes on, the name is resolved to its address;
* `returns_of_any`: an address that a client takes from a `Resolution` is still registered.
-/

namespace Mm1

namespace NameService

open NameServer Lease Transition Option

/-- `Registration` -/
structure Registration where
  key : String
  addr : Address
  registerTimeout : Duration
  refreshInterval : Duration
  ttl : Duration
  exclusive : Bool

/-- `Registration::new` -/
def Registration.new (key : String) (addr : Address) : Registration :=
  ⟨key, addr, 10000000, 1000000000, 2000000000, true⟩

/-- The request that the loop makes. -/
def Registration.request (r : Registration) : Request := .register r.key r.addr r.exclusive r.ttl

/-- Where `run_inner` is. -/
inductive Stage where
  /-- in `ask_nofork`; the server has answered, or not yet -/
  | asking (since : Instant) (response : Option (Except (ErrorOf RegisterErrorKind) Unit))
  /-- in `time::sleep` -/
  | asleep (wake : Instant)
  | ended (error : ErrorOf RegisterErrorKind)

def Stage.running : Stage → Bool
  | .ended _ => false
  | _ => true

/-- When the loop is to go on. -/
def Stage.due (r : Registration) : Stage → Option Instant
  | .asking since _ => some (since + r.registerTimeout)
  | .asleep wake => some wake
  | .ended _ => none

/-- The server, and the loop of a `Registration`. -/
structure Naming where
  server : Server
  stage : Stage
  /-- the server has accepted a registration -/
  registered : Bool

namespace Naming

/-- `run` is called. -/
def start (server : Server) : Naming := ⟨server, .asking server.clock none, false⟩

/-- A step. -/
inductive Act where
  /-- time passes -/
  | tick (d : Duration)
  /-- the server handles a request of another client -/
  | request (q : Request) (t : Readings)
  /-- the server handles the request of the loop -/
  | register (t : Readings)
  /-- the response is received -/
  | receive
  /-- `ask_nofork` fails -/
  | fail (e : ErrorOf AskErrorKind)
  /-- the loop has slept -/
  | wake

/-- Make a step, if it can be made. -/
def step (latest : Instant) (r : Registration) (w : Naming) : Act → Option Naming
  | .tick d => some { w with server := ⟨w.server.state, w.server.clock + d⟩ }
  | .request q t => (w.server.step latest (q, t)).map fun server => { w with server }
  | .register t =>
    match w.stage, handle latest w.server.state t r.request with
    | .asking since none, (state, .register response) =>
      some ⟨⟨state, t.third⟩, .asking since (some response), w.registered || response.isOk⟩
    | _, _ => none
  | .receive =>
    match w.stage with
    | .asking _ (some (.ok ())) =>
      some { w with stage := .asleep (w.server.clock + r.refreshInterval) }
    | .asking _ (some (.error e)) => some { w with stage := .ended e }
    | _ => none
  | .fail e =>
    match w.stage with
    | .asking _ _ => some { w with stage := .ended ⟨.internal, e.message⟩ }
    | _ => none
  | .wake =>
    match w.stage with
    | .asleep wake =>
      if wake ≤ w.server.clock then some { w with stage := .asking w.server.clock none } else none
    | _ => none

/-- It is not yet later than the loop is to go on. -/
def Timely (r : Registration) (slack : Duration) (w : Naming) (now : Instant) : Prop :=
  (w.stage.due r).all (fun due => now ≤ due + slack) = true

/-- The clock does not go back, the loop goes on in time, and others leave the registration alone.
The end of a registration can be represented. -/
def Allowed (latest : Instant) (r : Registration) (slack : Duration) (w : Naming) : Act → Prop
  | .tick d => w.Timely r slack (w.server.clock + d)
  | .request q t => w.server.InOrder t ∧ ¬ q.IsAbout r.key r.addr ∧ w.Timely r slack t.third
  | .register t => w.server.InOrder t ∧ t.first + r.ttl ≤ latest ∧ w.Timely r slack t.third
  | .receive | .fail _ | .wake => True

instance (r : Registration) (slack : Duration) (w : Naming) (now : Instant) :
    Decidable (w.Timely r slack now) := inferInstanceAs (Decidable (_ = true))

instance (latest : Instant) (r : Registration) (slack : Duration) (w : Naming) (a : Act) :
    Decidable (Allowed latest r slack w a) :=
  match a with
  | .tick d => inferInstanceAs (Decidable (w.Timely r slack (w.server.clock + d)))
  | .request .. | .register .. => inferInstanceAs (Decidable (_ ∧ _ ∧ _))
  | .receive | .fail _ | .wake => instDecidableTrue

/-! ### The loop of a registration -/

variable {latest : Instant} {r : Registration} {slack : Duration} {w w' : Naming} {v now : Instant}

/-- The registration lasts until `v`, which is late enough for the loop. -/
def Until (r : Registration) (slack : Duration) (v : Instant) : Stage → Prop
  | .asking since (some (.ok _)) => since + r.ttl ≤ v
  | .asking since _ => since + r.ttl ≤ v + (r.refreshInterval + r.registerTimeout + 2 * slack)
  | .asleep wake => wake + r.ttl ≤ v + (r.refreshInterval + r.registerTimeout + slack)
  | .ended _ => False

/-- What holds of the loop. -/
structure Inv (r : Registration) (slack : Duration) (w : Naming) : Prop where
  timely : w.Timely r slack w.server.clock
  asked : ∀ since response, w.stage = .asking since response → since ≤ w.server.clock
  held : w.registered = true → w.stage.running = true →
    ∃ v, Until r slack v w.stage ∧ holder (w.server.directory r.key) r.addr = some v

private theorem inv_start (server : Server) : (start server).Inv r slack where
  timely := decide_eq_true (by rw [start]; lia)
  asked since response h := by
    obtain ⟨rfl, -⟩ := Stage.asking.inj h
    exact le_rfl
  held h := Bool.noConfusion h

section Slack

variable (hr : r.refreshInterval + 2 * r.registerTimeout + 3 * slack < r.ttl)

include hr

/-- The registration is not over while the loop is in time. -/
private theorem lt_of_until (htime : w.Timely r slack now) (huntil : Until r slack v w.stage) :
    now < v := by
  obtain ⟨server, stage, registered⟩ := w
  cases stage with
  | asking since response =>
    have hdue : now ≤ since + r.registerTimeout + slack := of_decide_eq_true htime
    have hlong : since + r.ttl ≤ v + (r.refreshInterval + r.registerTimeout + 2 * slack) := by
      rcases response with - | (e | u)
      · exact huntil
      · exact huntil
      · exact huntil.trans (Nat.le_add_right _ _)
    lia
  | asleep wake =>
    have hdue : now ≤ wake + slack := of_decide_eq_true htime
    have hlong : wake + r.ttl ≤ v + (r.refreshInterval + r.registerTimeout + slack) := huntil
    lia
  | ended e => exact huntil.elim

/-- The server does something else. -/
private theorem Inv.serve {server : Server} (h : w.Inv r slack)
    (hclock : w.server.clock ≤ server.clock) (htime : w.Timely r slack server.clock)
    (hholder : ∀ v, server.clock < v → holder (w.server.directory r.key) r.addr = some v →
      holder (server.directory r.key) r.addr = some v) :
    { w with server }.Inv r slack where
  timely := htime
  asked since response hstage := (h.asked since response hstage).trans hclock
  held hreg hrun := by
    obtain ⟨v, huntil, hold⟩ := h.held hreg hrun
    exact ⟨v, huntil, hholder v (lt_of_until hr htime huntil) hold⟩

/-- **The server handles the request of the loop.** -/
theorem Inv.register {t : Readings} (h : w.Inv r slack) (ht : w.server.InOrder t)
    (hend : t.first + r.ttl ≤ latest) (htime : w.Timely r slack t.third)
    (hstep : w.step latest r (.register t) = some w') : w'.Inv r slack := by
  obtain ⟨server, stage, registered⟩ := w
  rw [step] at hstep
  split at hstep
  case h_2 => contradiction
  case h_1 since state response hstage hhandle =>
    obtain rfl := some.inj hstep
    obtain rfl : stage = .asking since none := hstage
    obtain ⟨rfl, hresponse⟩ := Prod.mk.inj hhandle
    have hsince : since ≤ t.first := (h.asked since none rfl).trans ht.1
    have hthird : t.third ≤ since + r.registerTimeout + slack := of_decide_eq_true htime
    refine ⟨htime, fun since' response' heq => ?_, fun hreg _ => ?_⟩
    · obtain ⟨rfl, -⟩ := Stage.asking.inj heq
      exact hsince.trans (ht.2.1.trans ht.2.2)
    rcases registers_handle latest t r.exclusive r.ttl with ⟨-, hok⟩ | ⟨-, hno, hview⟩
    · obtain rfl : response = .ok () := Response.register.inj (hresponse.symm.trans hok)
      refine ⟨t.first + r.ttl, Nat.add_le_add_right hsince _, (holder_registered ht hok).trans ?_⟩
      rw [validThru, Instant.checkedAdd, if_pos hend, getD_some, filter_some,
        if_pos (decide_eq_true (by lia))]
    · obtain rfl : response = .error _ := Response.register.inj (hresponse.symm.trans hno)
      obtain ⟨v, huntil, hold⟩ := h.held ((Bool.or_false _).symm.trans hreg) rfl
      refine ⟨v, huntil, ?_⟩
      have hlast : server.clock ≤ t.third := ht.1.trans (ht.2.1.trans ht.2.2)
      rw [Server.directory]
      refine (congrArg (fun d => holder (d r.key) r.addr)
        (hview.trans (since_view hlast).symm)).trans ?_
      rw [holder_since]
      exact (congrArg _ hold).trans (if_pos (decide_eq_true (lt_of_until hr htime huntil)))

/-- **Every step of the loop.** -/
theorem Inv.step {a : Act} (h : w.Inv r slack) (ha : Allowed latest r slack w a)
    (hstep : w.step latest r a = some w') : w'.Inv r slack := by
  cases a with
  | tick d =>
    obtain rfl := some.inj hstep
    refine h.serve hr (Nat.le_add_right _ _) ha fun v hv hold => ?_
    rw [Server.directory, ← since_view (Nat.le_add_right w.server.clock d), holder_since]
    exact (congrArg _ hold).trans (if_pos (decide_eq_true hv))
  | request q t =>
    obtain ⟨ht, habout, htime⟩ := ha
    obtain rfl := some.inj hstep
    refine h.serve hr (ht.1.trans (ht.2.1.trans ht.2.2)) htime fun v hv hold => ?_
    rw [directory_step ht (show w.server.step latest (q, t) = some _ from rfl)]
    exact holder_after hv habout hold
  | register t => exact h.register hr ha.1 ha.2.1 ha.2.2 hstep
  | receive =>
    obtain ⟨server, stage, registered⟩ := w
    rw [Naming.step] at hstep
    split at hstep
    case h_1 since hstage =>
      obtain rfl := some.inj hstep
      obtain rfl : stage = .asking since (some (.ok ())) := hstage
      have hdue : server.clock ≤ since + r.registerTimeout + slack := of_decide_eq_true h.timely
      refine ⟨decide_eq_true (by lia), fun _ _ heq => Stage.noConfusion heq, fun hreg _ => ?_⟩
      obtain ⟨v, huntil, hold⟩ := h.held hreg rfl
      have hlong : since + r.ttl ≤ v := huntil
      refine ⟨v, ?_, hold⟩
      change _ + r.ttl ≤ v + _
      lia
    case h_2 =>
      obtain rfl := some.inj hstep
      exact ⟨rfl, fun _ _ heq => Stage.noConfusion heq, fun _ hrun => Bool.noConfusion hrun⟩
    case h_3 => contradiction
  | fail e =>
    rw [Naming.step] at hstep
    split at hstep
    case h_1 =>
      obtain rfl := some.inj hstep
      exact ⟨rfl, fun _ _ heq => Stage.noConfusion heq, fun _ hrun => Bool.noConfusion hrun⟩
    case h_2 => contradiction
  | wake =>
    obtain ⟨server, stage, registered⟩ := w
    rw [Naming.step] at hstep
    split at hstep
    case h_1 wake hstage =>
      obtain ⟨-, hstep⟩ := ite_none_right_eq_some.mp hstep
      obtain rfl := some.inj hstep
      obtain rfl : stage = .asleep wake := hstage
      have hdue : server.clock ≤ wake + slack := of_decide_eq_true h.timely
      refine ⟨decide_eq_true (by lia), fun since response heq => ?_, fun hreg _ => ?_⟩
      · obtain ⟨rfl, -⟩ := Stage.asking.inj heq
        exact le_rfl
      obtain ⟨v, huntil, hold⟩ := h.held hreg rfl
      have hlong : wake + r.ttl ≤ v + (r.refreshInterval + r.registerTimeout + slack) := huntil
      refine ⟨v, ?_, hold⟩
      change _ + r.ttl ≤ v + _
      lia
    case h_2 => contradiction

end Slack

/-- **While the loop goes on, the name is resolved to the address**, once it was registered. The
time between two requests, with all that may delay them, has to be shorter than a registration
lasts. -/
theorem resolves_while_running {server : Server} {t : Readings}
    (hr : r.refreshInterval + 2 * r.registerTimeout + 3 * slack < r.ttl)
    (h : Reaches (Naming.step latest r) (Allowed latest r slack) (start server) w)
    (hreg : w.registered = true) (hrun : w.stage.running = true)
    (ht : w.server.InOrder t) (htime : w.Timely r slack t.first) :
    (handle latest w.server.state t (.resolve r.key)).2.Returns r.addr := by
  have hinv : w.Inv r slack := h.invariant (inv_start server) fun hw ha hstep => hw.step hr ha hstep
  obtain ⟨v, huntil, hholder⟩ := hinv.held hreg hrun
  rw [returns_iff ht, hholder, filter_some, if_pos (decide_eq_true (lt_of_until hr htime huntil))]
  rfl

/-- The time is long enough for the defaults, if nothing is late by more than 0.3 s. -/
example : (Registration.new "db" ⟨0xa1#64⟩).refreshInterval +
    2 * (Registration.new "db" ⟨0xa1#64⟩).registerTimeout + 3 * 300000000 <
      (Registration.new "db" ⟨0xa1#64⟩).ttl := by decide

/-- A registration for a short time. -/
def brief : Registration := ⟨"db", ⟨0xa1#64⟩, 1, 10, 20, true⟩

/-- A name outlives its first registration, although another address asks for it. -/
theorem resolves_while_running_refreshed :
    ∃ w, Reaches (Naming.step 100 brief) (Allowed 100 brief 2) (start (.init 0)) w ∧
      (handle 100 w.server.state ⟨30, 30, 30⟩ (.resolve brief.key)).2.Returns brief.addr := by
  have hreach : Reaches (Naming.step 100 brief) (Allowed 100 brief 2) (start (.init 0)) _ :=
    reaches_get [.register ⟨1, 1, 2⟩, .receive, .tick 11, .wake, .register ⟨14, 14, 14⟩, .receive,
      .request (.register "db" ⟨0xa2#64⟩ true 5) ⟨24, 24, 24⟩, .wake, .register ⟨25, 25, 26⟩,
      .receive] rfl
  exact ⟨_, hreach, resolves_while_running (by decide) hreach rfl rfl (by decide) (by decide)⟩

end Naming

/-! ### What a client remembers -/

/-- `Resolution` -/
structure Resolution where
  key : String
  requestedAt : Instant
  entries : List (Address × Duration)

namespace Resolution

variable {latest now : Instant} {res : Resolution} {a : Address}

/-- `Resolution::still_valid` -/
def stillValid (latest : Instant) (res : Resolution) (now : Instant) (d : Duration) : Bool :=
  (Instant.checkedAdd latest res.requestedAt d).any (now < ·)

/-- `Resolution::first` -/
def first (latest : Instant) (res : Resolution) (now : Instant) : Option Address :=
  (res.entries.head?.filter fun e => res.stillValid latest now e.2).map Prod.fst

/-- `Resolution::any` -/
def any (latest : Instant) (res : Resolution) (now : Instant) : Option Address :=
  ((res.entries.filter fun e => res.stillValid latest now e.2).map Prod.fst).head?

private theorem any_of_first (h : res.first latest now = some a) : res.any latest now = some a := by
  obtain ⟨e, he, rfl⟩ := map_eq_some_iff.mp h
  obtain ⟨hhead, hvalid⟩ := filter_eq_some_iff.mp he
  obtain ⟨rest, hrest⟩ := List.head?_eq_some_iff.mp hhead
  rw [any, hrest, List.filter_cons, if_pos hvalid]
  rfl

private theorem exists_of_any (h : res.any latest now = some a) :
    ∃ d, (a, d) ∈ res.entries ∧ now < res.requestedAt + d := by
  obtain ⟨⟨a', d⟩, he, rfl⟩ := List.mem_map.mp (List.mem_of_mem_head? h)
  obtain ⟨hmem, hvalid⟩ := List.mem_filter.mp he
  obtain ⟨due, hdue, hlt⟩ := (any_eq_true _ _).mp hvalid
  obtain ⟨-, heq⟩ := ite_none_right_eq_some.mp hdue
  obtain rfl := some.inj heq
  exact ⟨d, hmem, of_decide_eq_true hlt⟩

/-- **What a client takes from a `Resolution` is still registered**: the server would say so now.
The answer may have been long under way, and the client has put the entries in another order. Since
then the address was neither unregistered nor registered again. -/
theorem returns_of_any {s s₁ s' : Server} {t t' : Readings} {items : List (Address × Duration)}
    (ht : s.InOrder t) (hasked : res.requestedAt ≤ t.first)
    (hanswer : (handle latest s.state t (.resolve res.key)).2 = .resolve items)
    (hentries : res.entries.Perm items) (hs₁ : s.step latest (.resolve res.key, t) = some s₁)
    (hrun : Reaches (Server.step latest) (fun s l => s.InOrder l.2 ∧ ¬ l.1.IsAbout res.key a) s₁ s')
    (ht' : s'.InOrder t')
    (htaken : res.any latest t'.first = some a ∨ res.first latest t'.first = some a) :
    (handle latest s'.state t' (.resolve res.key)).2.Returns a := by
  obtain ⟨d, hmem, hvalid⟩ := exists_of_any (htaken.elim id any_of_first)
  obtain ⟨items', hitems', -, hiff, -⟩ := @resolves_handle s.state res.key latest t
  obtain rfl := Response.resolve.inj (hanswer.symm.trans hitems')
  obtain ⟨i, hi, rfl⟩ := (hiff a d).mp (hentries.mem_iff.mp hmem)
  rw [← since_view ht.1] at hi
  have hholder := (holder_since.symm.trans hi)
  obtain ⟨hheld, hlive⟩ := filter_eq_some_iff.mp hholder
  -- the time that is left was counted from an earlier time than the server had in mind
  have hend : t'.first < i := by
    have hlive : t.first < i := of_decide_eq_true hlive
    lia
  have hlast := holder_of_runs hrun (fun hclock => ?_) (ht'.1.trans_lt hend)
  · rw [returns_iff ht', hlast, filter_some, if_pos (decide_eq_true hend)]
    rfl
  · rw [directory_step ht hs₁]
    obtain rfl := some.inj hs₁
    exact holder_after hclock (fun h => h) hheld

/-- Two addresses share a name, for a short and for a long time. -/
def sharedName : Server :=
  ((Server.init 0).registered 100 ⟨1, 1, 1⟩ "db" ⟨0xa1#64⟩ false 9).registered 100 ⟨2, 2, 2⟩ "db"
    ⟨0xa2#64⟩ false 40

/-- What was answered, and was asked a little before. -/
def remembered : Resolution := ⟨"db", 4, [(⟨0xa1#64⟩, 5), (⟨0xa2#64⟩, 37)]⟩

/-- The time of one is over, and the other one is taken. -/
theorem returns_of_any_shared :
    ∃ s₁, sharedName.step 100 (.resolve remembered.key, ⟨5, 5, 5⟩) = some s₁ ∧
      remembered.any 100 20 = some ⟨0xa2#64⟩ ∧
      (handle 100 s₁.state ⟨20, 20, 20⟩ (.resolve remembered.key)).2.Returns ⟨0xa2#64⟩ := by
  obtain ⟨s₁, hs₁, hanswer, ht'⟩ :
      ∃ s₁, sharedName.step 100 (.resolve remembered.key, ⟨5, 5, 5⟩) = some s₁ ∧
        (handle 100 sharedName.state ⟨5, 5, 5⟩ (.resolve remembered.key)).2 =
          .resolve remembered.entries ∧ s₁.InOrder ⟨20, 20, 20⟩ := ⟨_, rfl, rfl, by decide⟩
  have hany : remembered.any 100 20 = some ⟨0xa2#64⟩ := by decide
  have ht : sharedName.InOrder ⟨5, 5, 5⟩ := by decide
  exact ⟨s₁, hs₁, hany, returns_of_any ht (by decide) hanswer (.refl _) hs₁ .refl ht' (.inl hany)⟩

end Resolution

end NameService

end Mm1
