import Mm1.Multinode.ProtocolRegistry

/-!
# Waiting for a protocol

`GetProtocolByName` with a timeout waits for a protocol that is not registered: the request goes on
the waitlist, and a timer is started. It leaves the list when the protocol is registered or when the
timer fires, whichever comes first. A timer that is cancelled may have fired already; its message is
then in the inbox, and arrives when the request is gone.

The requests that wait are in a slot map, and `by_protocol` lists them in the order of the
protocols. `RegisterProtocol` goes through it to find those that wait for the new protocol.

* `Waitlist.Inv`: the slot map and `by_protocol` agree;
* `takeHits_spec`: the loop of `RegisterProtocol` takes all that wait for the protocol;
* `handle_spec`: one message;
* `waitlist_exact_of_runs`: every run.
-/

namespace Mm1

open Fallible OrderedMap List ProtocolRegistry Roster

abbrev WaitlistKey := KeyData

/-- `GetProtocolByNameErrorKind` -/
inductive GetProtocolByNameErrorKind where
  | noProtocol
  deriving DecidableEq

variable {TypeId : Type} {typeName : TypeId → MessageName} {subnets : List (AddressRange × Unit)}
  {err : WaitlistPanic → Prop} {timerKey : OneshotKey}

/-- `ProtocolResolved` -/
structure ProtocolResolved (typeName : TypeId → MessageName) where
  protocol : Protocol typeName
  outbound : List (MessageName × LocalTypeKey)
  inbound : List (MessageName × LocalTypeKey)

/-- `GetProtocolByNameResponse` -/
abbrev GetProtocolByNameResponse (typeName : TypeId → MessageName) :=
  Except (ErrorOf GetProtocolByNameErrorKind) (ProtocolResolved typeName)

/-- `WaitlistEntry` -/
structure WaitlistEntry where
  protocol : ProtocolName
  replyTo : RequestHeader
  timerKey : Option OneshotKey
  deriving DecidableEq

/-- `Waitlist` -/
structure Waitlist where
  entries : Roster WaitlistKey WaitlistEntry
  byProtocol : List ((ProtocolName × Option WaitlistKey) × Unit)

/-- The state of `MultinodeManager` as far as protocols are concerned. -/
structure MultinodeManager (typeName : TypeId → MessageName) where
  localSubnets : List (AddressRange × Unit)
  protocolRegistry : ProtocolRegistry typeName
  protocolWaitlist : Waitlist

/-- What ends the manager. -/
inductive WaitlistPanic where
  | registry (panic : RegistryPanic)
  /-- the slot map of the waitlist has no key left -/
  | full
  /-- `waitlist_key.expect("None should have been filtered out")` -/
  | noWaitlistKey
  /-- `entries.remove(waitlist_key).expect("should be present")` -/
  | noEntry
  /-- `timer_key.expect("a None should not have been saved")` -/
  | noTimerKey
  /-- `assert!(new_key)` -/
  | oldKey
  /-- `assert!(protocol_registry.protocol_by_name(&protocol).is_none())` -/
  | isRegistered
  /-- `assert!(existing_key)` -/
  | noExistingKey
  /-- `ctx.tell(ctx.address(), SetRoute { .. })` fails, and with it the handler -/
  | tellRefused
  deriving DecidableEq

/-! ### The waitlist -/

namespace Waitlist

/-- `Waitlist::default` -/
def empty : Waitlist := ⟨.empty, []⟩

/-- The order of `by_protocol`. -/
def cmp : ProtocolName × Option WaitlistKey → ProtocolName × Option WaitlistKey → Ordering :=
  lexCmp compare (optionCmp KeyData.cmp)

/-- The first one that waits for the protocol: `range((name, None)..)`, `skip_while`, `take_while`
and `next`. -/
def nextHit (w : Waitlist) (name : ProtocolName) : Option (ProtocolName × Option WaitlistKey) :=
  let range := (above cmp (name, none) w.byProtocol).map Prod.fst
  ((range.dropWhile fun x => x.2.isNone).takeWhile fun x => x.1 = name).head?

/-- One that waited for a protocol that is now registered. -/
structure Hit where
  timerKey : OneshotKey
  replyTo : RequestHeader
  deriving DecidableEq

/-- A turn of the loop of `RegisterProtocol`: takes one that waits off the list. -/
def takeHit (w : Waitlist) (name : ProtocolName) :
    Except WaitlistPanic (Option (Hit × Waitlist)) :=
  match w.nextHit name with
  | none => .ok none
  | some (_, none) => .error .noWaitlistKey
  | some (_, some waitlistKey) =>
    match w.entries.lookup waitlistKey with
    | none => .error .noEntry
    | some entry =>
      match entry.timerKey with
      | none => .error .noTimerKey
      | some timerKey =>
        .ok (some (⟨timerKey, entry.replyTo⟩,
          { entries := w.entries.erase waitlistKey
            byProtocol := (discard cmp (entry.protocol, some waitlistKey) w.byProtocol).1 }))

/-- The loop of `RegisterProtocol`. A turn removes an entry, so that there are at most as many turns
as entries, and one more to see that it is over. -/
def takeHits (name : ProtocolName) : ℕ → Waitlist → Except WaitlistPanic (List Hit × Waitlist)
  | 0, _ => .error .noEntry
  | turns + 1, w => do
    match ← w.takeHit name with
    | none => return ([], w)
    | some (hit, w) =>
      let (hits, w) ← takeHits name turns w
      return (hit :: hits, w)

/-- The requests that wait. -/
def waiting (w : Waitlist) : List RequestHeader := w.entries.entries.map fun e => e.2.replyTo

end Waitlist

/-! ### The handlers -/

section Handlers

variable [DecidableEq TypeId]

/-- `.map(|c| (c.name(), protocol_registry.register_message(c))).collect()` -/
def ProtocolRegistry.registerMessages (slots : Roster.Slots LocalTypeKey)
    (r : ProtocolRegistry typeName) :
    List (ErasedCodecApi typeName) →
      Except RegistryPanic (List (MessageName × LocalTypeKey) × ProtocolRegistry typeName)
  | [] => .ok ([], r)
  | c :: rest => do
    let (key, r) ← r.registerMessage slots c
    let (names, r) ← r.registerMessages slots rest
    return ((c.name, key) :: names, r)

/-- The protocol with the keys of its types. -/
def ProtocolRegistry.resolve (slots : Roster.Slots LocalTypeKey) (r : ProtocolRegistry typeName)
    (protocol : Protocol typeName) :
    Except RegistryPanic (ProtocolResolved typeName × ProtocolRegistry typeName) := do
  let (outbound, r) ← r.registerMessages slots protocol.outboundTypes
  let (inbound, r) ← r.registerMessages slots protocol.inboundTypes
  return (⟨protocol, outbound, inbound⟩, r)

/-- The loop of `RegisterProtocol` over the inbound types, with what the manager tells itself. Its
inbox takes `room` messages before it refuses one. -/
def ProtocolRegistry.announce (slots : Roster.Slots LocalTypeKey) (subnets : List NetAddress) :
    ℕ → ProtocolRegistry typeName → List (ErasedCodecApi typeName) →
      Except WaitlistPanic (List SetRoute × ProtocolRegistry typeName)
  | _, r, [] => .ok ([], r)
  | room, r, c :: rest => do
    let (key, r) ← (r.registerMessage slots c).mapError .registry
    if room < subnets.length then .error .tellRefused
    else
      let (routes, r) ← announce slots subnets (room - subnets.length) r rest
      return ((subnets.map fun net => ⟨key, net, none, some 0⟩) ++ routes, r)

namespace MultinodeManager

/-- The manager as `run` builds it, with these subnets. -/
def init (subnets : List (AddressRange × Unit)) : MultinodeManager typeName :=
  ⟨subnets, .empty, .empty⟩

/-- What the manager is answered while it handles a message. The timer accepts what it is asked. -/
structure Answers where
  /-- the slot map of the codecs -/
  codecs : Roster.Slots LocalTypeKey
  /-- the slot map of the waitlist -/
  entries : Roster.Slots WaitlistKey
  /-- the key of the timer that is started -/
  timerKey : OneshotKey
  /-- `Arc::get_mut` of the protocol is `None` -/
  inUse : Bool
  /-- how many messages to itself the inbox of the manager takes -/
  room : ℕ

/-- A message to the manager. -/
inductive Message (typeName : TypeId → MessageName) where
  | registerProtocol (replyTo : RequestHeader) (name : ProtocolName) (protocol : Protocol typeName)
  | unregisterProtocol (replyTo : RequestHeader) (name : ProtocolName)
  | getProtocolByName (replyTo : RequestHeader) (name : ProtocolName) (timeout : Option Duration)
  | waitlistTimeoutElapsed (waitlistKey : WaitlistKey)

/-- What the manager sends. -/
inductive Sent (typeName : TypeId → MessageName) where
  | registerProtocol (replyTo : RequestHeader)
      (response : Except (ErrorOf RegisterProtocolErrorKind) Unit)
  | unregisterProtocol (replyTo : RequestHeader)
      (response : Except (ErrorOf UnregisterProtocolErrorKind) Unit)
  | getProtocolByName (replyTo : RequestHeader) (response : GetProtocolByNameResponse typeName)
  /-- the manager to itself -/
  | setRoute (route : SetRoute)
  /-- `timer_api.schedule_once_after` -/
  | scheduleOnceAfter (timeout : Duration) (waitlistKey : WaitlistKey)
  /-- `timer_api.cancel` -/
  | cancel (timerKey : OneshotKey)

/-- `process_request` of `RegisterProtocol`: registers the protocol and takes those that wait for it
off the list. -/
def processRequest (ans : Answers) (s : MultinodeManager typeName) (name : ProtocolName)
    (protocol : Protocol typeName) :
    Except WaitlistPanic (MultinodeManager typeName ×
      Except (ErrorOf RegisterProtocolErrorKind) Unit × List Waitlist.Hit) := do
  let (protocolRegistry, answer) ←
    (s.protocolRegistry.registerProtocol ans.codecs name protocol).mapError .registry
  match answer with
  | .error e => return ({ s with protocolRegistry }, .error e, [])
  | .ok () =>
    let (hits, protocolWaitlist) ←
      Waitlist.takeHits name (s.protocolWaitlist.entries.entries.length + 1) s.protocolWaitlist
    return ({ s with protocolRegistry, protocolWaitlist }, .ok (), hits)

/-- `OnRequest<RegisterProtocolRequest>` -/
def onRegisterProtocol (ans : Answers) (s : MultinodeManager typeName) (replyTo : RequestHeader)
    (name : ProtocolName) (protocol : Protocol typeName) :
    Except WaitlistPanic (MultinodeManager typeName × List (Sent typeName)) := do
  let (s, replyWith, hits) ← s.processRequest ans name protocol
  let subnets := s.localSubnets.map fun (net, _) => NetAddress.ofRange net
  let (routes, protocolRegistry) ←
    ProtocolRegistry.announce ans.codecs subnets ans.room s.protocolRegistry protocol.inboundTypes
  let (resolved, protocolRegistry) ←
    (protocolRegistry.resolve ans.codecs protocol).mapError .registry
  return ({ s with protocolRegistry },
    routes.map .setRoute ++ .registerProtocol replyTo replyWith ::
      hits.flatMap fun hit => [.cancel hit.timerKey, .getProtocolByName hit.replyTo (.ok resolved)])

/-- `OnRequest<UnregisterProtocolRequest>` -/
def onUnregisterProtocol (ans : Answers) (s : MultinodeManager typeName) (replyTo : RequestHeader)
    (name : ProtocolName) : MultinodeManager typeName × List (Sent typeName) :=
  let (protocolRegistry, replyWith) := s.protocolRegistry.unregisterProtocol name ans.inUse
  ({ s with protocolRegistry }, [.unregisterProtocol replyTo replyWith])

/-- `OnRequest<GetProtocolByNameRequest>` -/
def onGetProtocolByName (ans : Answers) (s : MultinodeManager typeName) (replyTo : RequestHeader)
    (name : ProtocolName) (timeout : Option Duration) :
    Except WaitlistPanic (MultinodeManager typeName × List (Sent typeName)) :=
  match s.protocolRegistry.protocolByName name, timeout with
  | some protocol, _ => do
    let (resolved, protocolRegistry) ←
      (s.protocolRegistry.resolve ans.codecs protocol).mapError .registry
    return ({ s with protocolRegistry }, [.getProtocolByName replyTo (.ok resolved)])
  | none, none =>
    .ok (s, [.getProtocolByName replyTo (.error ⟨.noProtocol, "no such protocol"⟩)])
  | none, some timeout =>
    match s.protocolWaitlist.entries.insert? ans.entries ⟨name, replyTo, none⟩ with
    | none => .error .full
    | some (waitlistKey, entries) =>
      let entries := entries.modify waitlistKey fun e => { e with timerKey := some ans.timerKey }
      let (byProtocol, newKey) :=
        add Waitlist.cmp (name, some waitlistKey) s.protocolWaitlist.byProtocol
      if newKey then
        .ok ({ s with protocolWaitlist := ⟨entries, byProtocol⟩ },
          [.scheduleOnceAfter timeout waitlistKey])
      else .error .oldKey

/-- `OnMessage<WaitlistTimeoutElapsed>` -/
def onWaitlistTimeoutElapsed (s : MultinodeManager typeName) (waitlistKey : WaitlistKey) :
    Except WaitlistPanic (MultinodeManager typeName × List (Sent typeName)) :=
  match s.protocolWaitlist.entries.lookup waitlistKey with
  | none => .ok (s, [])
  | some entry =>
    match s.protocolRegistry.protocolByName entry.protocol with
    | some _ => .error .isRegistered
    | none =>
      let entries := s.protocolWaitlist.entries.erase waitlistKey
      let (byProtocol, existingKey) :=
        discard Waitlist.cmp (entry.protocol, some waitlistKey) s.protocolWaitlist.byProtocol
      if existingKey then
        .ok ({ s with protocolWaitlist := ⟨entries, byProtocol⟩ },
          [.getProtocolByName entry.replyTo
            (.error ⟨.noProtocol, "timed out waiting for protocol"⟩)])
      else .error .noExistingKey

/-- Handles a message. -/
def handle (ans : Answers) (s : MultinodeManager typeName) :
    Message typeName → Except WaitlistPanic (MultinodeManager typeName × List (Sent typeName))
  | .registerProtocol replyTo name protocol => s.onRegisterProtocol ans replyTo name protocol
  | .unregisterProtocol replyTo name => .ok (s.onUnregisterProtocol ans replyTo name)
  | .getProtocolByName replyTo name timeout => s.onGetProtocolByName ans replyTo name timeout
  | .waitlistTimeoutElapsed waitlistKey => s.onWaitlistTimeoutElapsed waitlistKey

end MultinodeManager

end Handlers

/-! ### The waitlist and its index -/

namespace Waitlist

variable {w w' : Waitlist} {name : ProtocolName} {k : WaitlistKey} {e : WaitlistEntry}
  {replyTo : RequestHeader}

/-- The slot map and `by_protocol` agree, and every timer is set. -/
structure Inv (w : Waitlist) : Prop where
  sorted : Sorted cmp w.byProtocol
  byProtocol : ∀ x, (x, ()) ∈ w.byProtocol ↔
    ∃ k e, w.entries.lookup k = some e ∧ x = (e.protocol, some k)
  timerKey : ∀ k e, w.entries.lookup k = some e → e.timerKey.isSome = true

private theorem inv_empty : empty.Inv where
  sorted := List.Pairwise.nil
  byProtocol _ := by simp [empty]
  timerKey _ _ h := by simp [empty] at h

private theorem orderOn_cmp : OrderOn cmp Set.univ := by
  rw [← Set.univ_prod_univ]
  exact orderOn_compare.lex KeyData.orderOn_cmp.option

/-- What stands between `(name, none)` and a key with this name has the name, too. -/
private theorem fst_eq_of_between {x y : ProtocolName × Option WaitlistKey}
    (hx : cmp (name, none) x ≠ .gt) (hxy : x = y ∨ cmp x y = .lt) (hy : y.1 = name) :
    x.1 = name := by
  rcases hxy with rfl | hxy
  · exact hy
  · have hge : compare name x.1 ≠ .gt := fst_ne_gt hx
    have hle : compare x.1 name ≠ .gt := by
      rw [← hy]
      exact fst_ne_gt_of_lt hxy
    have hswap : compare x.1 name = (compare name x.1).swap := Std.OrientedCmp.eq_swap
    have heq : compare name x.1 = .eq := by
      refine eq_of_ne (fun hlt => hle ?_) hge
      rw [hswap, hlt]
      rfl
    exact (Std.LawfulEqOrd.compare_eq_iff_eq.mp heq).symm

/-- `by_protocol` is searched for the first that waits: it finds one if there is one. -/
private theorem Inv.nextHit_cases (h : w.Inv) (name : ProtocolName) :
    (w.nextHit name = none ∧ ∀ k e, w.entries.lookup k = some e → e.protocol ≠ name) ∨
      ∃ k e, w.nextHit name = some (name, some k) ∧ w.entries.lookup k = some e ∧
        e.protocol = name := by
  have hkeys : KeysIn Set.univ w.byProtocol := fun _ _ => trivial
  have hprobe := orderOn_cmp.probe (Set.mem_univ (name, (none : Option WaitlistKey)))
  -- the head of the range, for one that waits
  have hhead : ∀ k e, w.entries.lookup k = some e → e.protocol = name →
      ∃ f, (above cmp (name, none) w.byProtocol).head? = some f ∧ f.1.1 = name := by
    intro k e hk hname
    have hmem := (h.byProtocol _).mpr ⟨k, e, hk, rfl⟩
    have hne : cmp (name, none) (e.protocol, some k) ≠ .gt := by
      simp [cmp, lexCmp, hname, optionCmp]
    obtain ⟨f, hf, hge, hle⟩ := exists_next h.sorted hkeys hprobe hmem hne
    exact ⟨f, hf, fst_eq_of_between hge (hle.imp_left (congrArg Prod.fst)) hname⟩
  cases habove : above cmp (name, none) w.byProtocol with
  | nil =>
    refine .inl ⟨by simp [nextHit, habove], fun k e hk hname => ?_⟩
    obtain ⟨f, hf, -⟩ := hhead k e hk hname
    simp [habove] at hf
  | cons f rest =>
    have hf : f ∈ w.byProtocol := mem_of_mem_above (by rw [habove]; exact mem_cons_self)
    obtain ⟨k, e, hk, hfe⟩ := (h.byProtocol f.1).mp hf
    by_cases hname : e.protocol = name
    · exact .inr ⟨k, e, by simp [nextHit, habove, hfe, hname], hk, hname⟩
    · refine .inl ⟨by simp [nextHit, habove, hfe, hname], fun k' e' hk' hname' => ?_⟩
      obtain ⟨f', hf', hfname⟩ := hhead k' e' hk' hname'
      obtain rfl : f = f' := by simpa [habove] using hf'
      exact hname (by simpa [hfe] using hfname)

/-- An entry leaves the list. -/
private theorem Inv.remove (h : w.Inv) (hk : w.entries.lookup k = some e) :
    ∃ byProtocol, discard cmp (e.protocol, some k) w.byProtocol = (byProtocol, true) ∧
      Inv ⟨w.entries.erase k, byProtocol⟩ := by
  obtain ⟨byProtocol, hdiscard, hsorted, hmem⟩ :=
    discard_spec orderOn_cmp h.sorted ((h.byProtocol _).mpr ⟨k, e, hk, rfl⟩)
  refine ⟨byProtocol, hdiscard, hsorted, fun x => ?_, fun k' e' hk' => ?_⟩
  · rw [hmem, h.byProtocol]
    constructor
    · rintro ⟨⟨k', e', hk', rfl⟩, hne⟩
      have hkk : k' ≠ k := by
        rintro rfl
        obtain rfl := Option.some.inj (hk.symm.trans hk')
        exact hne rfl
      exact ⟨k', e', lookup_erase_eq_some.mpr ⟨hkk, hk'⟩, rfl⟩
    · rintro ⟨k', e', hk', rfl⟩
      obtain ⟨hkk, hk'⟩ := lookup_erase_eq_some.mp hk'
      exact ⟨⟨k', e', hk', rfl⟩, by simp [hkk]⟩
  · exact h.timerKey k' e' (lookup_erase_eq_some.mp hk').2

private theorem waiting_remove (hk : w.entries.lookup k = some e)
    (byProtocol : List ((ProtocolName × Option WaitlistKey) × Unit)) :
    w.waiting.Perm (e.replyTo :: waiting ⟨w.entries.erase k, byProtocol⟩) :=
  (perm_erase hk).map _

/-- The slot map after `entries.insert` and `entries[waitlist_key].timer_key = Some(timer_key)`. -/
private theorem lookup_wait (hk : w.entries.lookup k = none) (k' : WaitlistKey) :
    ((w.entries.push k ⟨name, replyTo, none⟩ hk).modify k
      fun e => { e with timerKey := some timerKey }).lookup k' =
      if k' = k then some ⟨name, replyTo, some timerKey⟩ else w.entries.lookup k' := by
  rw [lookup_modify, lookup_push]
  split <;> rfl

/-- An entry enters the list, with its timer. -/
private theorem Inv.wait (h : w.Inv) (hk : w.entries.lookup k = none) (name : ProtocolName)
    (replyTo : RequestHeader) (timerKey : OneshotKey) :
    ∃ byProtocol, add cmp (name, some k) w.byProtocol = (byProtocol, true) ∧
      Inv ⟨(w.entries.push k ⟨name, replyTo, none⟩ hk).modify k
        fun e => { e with timerKey := some timerKey }, byProtocol⟩ := by
  have hnew : ((name, some k), ()) ∉ w.byProtocol := by
    intro hmem
    obtain ⟨k', e', hk', heq⟩ := (h.byProtocol _).mp hmem
    obtain rfl : k = k' := by simpa using congrArg Prod.snd heq
    simp [hk] at hk'
  obtain ⟨byProtocol, hadd, hsorted, hmem⟩ := add_spec orderOn_cmp h.sorted hnew
  refine ⟨byProtocol, hadd, hsorted, fun x => ?_, fun k' e' hk' => ?_⟩
  · rw [hmem, h.byProtocol]
    constructor
    · rintro (rfl | ⟨k', e', hk', rfl⟩)
      · exact ⟨k, ⟨name, replyTo, some timerKey⟩, by rw [lookup_wait, if_pos rfl], rfl⟩
      · have hkk : k' ≠ k := by
          rintro rfl
          simp [hk] at hk'
        exact ⟨k', e', by rw [lookup_wait, if_neg hkk, hk'], rfl⟩
    · rintro ⟨k', e', hk', rfl⟩
      rw [lookup_wait] at hk'
      split at hk'
      case isTrue hkk =>
        obtain rfl := Option.some.inj hk'
        exact .inl (by rw [hkk])
      case isFalse => exact .inr ⟨k', e', hk', rfl⟩
  · rw [lookup_wait] at hk'
    split at hk'
    case isTrue =>
      obtain rfl := Option.some.inj hk'
      rfl
    case isFalse => exact h.timerKey k' e' hk'

private theorem waiting_wait (hk : w.entries.lookup k = none)
    (byProtocol : List ((ProtocolName × Option WaitlistKey) × Unit)) :
    waiting ⟨(w.entries.push k ⟨name, replyTo, none⟩ hk).modify k
      fun e => { e with timerKey := some timerKey }, byProtocol⟩ = w.waiting ++ [replyTo] := by
  have hmap : waiting ⟨(w.entries.push k ⟨name, replyTo, none⟩ hk).modify k
      fun e => { e with timerKey := some timerKey }, byProtocol⟩ =
      (w.entries.push k ⟨name, replyTo, none⟩ hk).entries.map fun e => e.2.replyTo :=
    map_modify fun _ => rfl
  rw [hmap, Roster.push, map_append]
  rfl

/-! ### The loop of `RegisterProtocol` -/

/-- A turn never fails, and it takes one that waits for the protocol, if there is one. -/
private theorem takeHit_spec (h : w.Inv) (name : ProtocolName) :
    Ensures err
      (fun res => (res = none ∧ ∀ k e, w.entries.lookup k = some e → e.protocol ≠ name) ∨
        ∃ hit w', res = some (hit, w') ∧ w'.Inv ∧ w.waiting.Perm (hit.replyTo :: w'.waiting) ∧
          ∀ k e, w'.entries.lookup k = some e → w.entries.lookup k = some e)
      (w.takeHit name) := by
  rw [takeHit]
  rcases h.nextHit_cases name with ⟨hnone, hfree⟩ | ⟨k, e, hsome, hk, -⟩
  · rw [hnone]
    exact .inl ⟨rfl, hfree⟩
  · obtain ⟨timerKey, htimer⟩ := Option.isSome_iff_exists.mp (h.timerKey k e hk)
    obtain ⟨byProtocol, hdiscard, hinv⟩ := h.remove hk
    simp only [hsome, hk, htimer, hdiscard]
    refine .inr ⟨_, _, rfl, hinv, waiting_remove hk _, fun k' e' hk' => ?_⟩
    exact (lookup_erase_eq_some.mp hk').2

/-- **The loop never fails, and it takes all that wait for the protocol**, and no others. -/
theorem takeHits_spec (h : w.Inv) {turns : ℕ} (hturns : w.waiting.length < turns)
    (name : ProtocolName) :
    Ensures err
      (fun res => res.2.Inv ∧ w.waiting.Perm (res.1.map Hit.replyTo ++ res.2.waiting) ∧
        ∀ k e, res.2.entries.lookup k = some e →
          w.entries.lookup k = some e ∧ e.protocol ≠ name)
      (takeHits name turns w) := by
  -- each turn leaves one less to wait
  induction turns generalizing w with
  | zero => simp at hturns
  | succ turns ih =>
    rw [takeHits]
    refine (takeHit_spec h name).bind ?_
    rintro _ (⟨rfl, hfree⟩ | ⟨hit, w₁, rfl, h₁, hperm, hsub⟩)
    · exact ⟨h, .refl _, fun k e hk => ⟨hk, hfree k e hk⟩⟩
    · have hlen := hperm.length_eq
      rw [length_cons] at hlen
      refine (ih h₁ (by omega)).bind ?_
      rintro ⟨hits, w₂⟩ ⟨h₂, hperm₂, hsub₂⟩
      refine ⟨h₂, hperm.trans (hperm₂.cons _), fun k e hk => ?_⟩
      obtain ⟨hk₁, hne⟩ := hsub₂ k e hk
      exact ⟨hsub k e hk₁, hne⟩

end Waitlist

/-! ### The handlers -/

section Specs

variable [DecidableEq TypeId]

namespace ProtocolRegistry

variable {slots : Roster.Slots LocalTypeKey} {r : ProtocolRegistry typeName}

private theorem registerMessages_spec (hinv : r.Inv) (cs : List (ErasedCodecApi typeName)) :
    Ensures (· = .full) (fun res => res.2.Inv ∧ res.2.protocols = r.protocols)
      (r.registerMessages slots cs) := by
  induction cs generalizing r with
  | nil => exact ⟨hinv, rfl⟩
  | cons c cs ih =>
    rw [registerMessages]
    refine (registerMessage_spec hinv).bind ?_
    rintro ⟨k, r₁⟩ hreg
    refine (ih (hreg.inv hinv)).bind ?_
    rintro ⟨names, r₂⟩ ⟨hinv₂, hprot⟩
    exact ⟨hinv₂, hprot.trans hreg.protocols⟩

private theorem resolve_spec (hinv : r.Inv) (protocol : Protocol typeName) :
    Ensures (· = .full) (fun res => res.2.Inv ∧ res.2.protocols = r.protocols)
      (r.resolve slots protocol) := by
  rw [resolve]
  refine (registerMessages_spec hinv _).bind ?_
  rintro ⟨outbound, r₁⟩ ⟨hinv₁, hprot₁⟩
  refine (registerMessages_spec hinv₁ _).bind ?_
  rintro ⟨inbound, r₂⟩ ⟨hinv₂, hprot₂⟩
  exact ⟨hinv₂, hprot₂.trans hprot₁⟩

end ProtocolRegistry

/-- No check of the manager fails: a slot map is full, or the manager has local subnets and its
inbox refuses a route. -/
def WaitlistPanic.Outside (subnets : List (AddressRange × Unit)) (e : WaitlistPanic) : Prop :=
  e = .full ∨ e = .registry .full ∨ e = .tellRefused ∧ subnets ≠ []

private theorem WaitlistPanic.outside_registry (e : RegistryPanic) (h : e = .full) :
    Outside subnets (.registry e) := .inr (.inl (congrArg _ h))

/-- The types are announced, or the inbox is full. -/
private theorem announce_spec {slots : Roster.Slots LocalTypeKey}
    {r : ProtocolRegistry typeName} (hinv : r.Inv) (subnets : List (AddressRange × Unit))
    (room : ℕ) (cs : List (ErasedCodecApi typeName)) :
    Ensures (WaitlistPanic.Outside subnets)
      (fun res => res.2.Inv ∧ res.2.protocols = r.protocols)
      (announce slots (subnets.map fun (net, _) => .ofRange net) room r cs) := by
  induction cs generalizing r room with
  | nil => exact ⟨hinv, rfl⟩
  | cons c cs ih =>
    rw [announce]
    refine ((registerMessage_spec hinv).mapError WaitlistPanic.outside_registry).bind ?_
    rintro ⟨k, r₁⟩ hreg
    dsimp only
    split
    case isTrue hroom =>
      refine .inr (.inr ⟨rfl, ?_⟩)
      rintro rfl
      simp at hroom
    case isFalse =>
      refine (ih (hreg.inv hinv) _).bind ?_
      rintro ⟨routes, r₂⟩ ⟨hinv₂, hprot⟩
      exact ⟨hinv₂, hprot.trans hreg.protocols⟩

namespace MultinodeManager

variable {ans : Answers} {s s' : MultinodeManager typeName} {replyTo : RequestHeader}
  {name : ProtocolName}

/-- The tables of the manager agree, and no registered protocol is waited for. -/
structure Inv (s : MultinodeManager typeName) : Prop where
  registry : s.protocolRegistry.Inv
  waitlist : s.protocolWaitlist.Inv
  apart : ∀ k e, s.protocolWaitlist.entries.lookup k = some e →
    s.protocolRegistry.protocols e.protocol = none

/-- The request for a protocol that a message is. -/
def Message.asks : Message typeName → List RequestHeader
  | .getProtocolByName replyTo _ _ => [replyTo]
  | _ => []

/-- The request for a protocol that is answered. -/
def Sent.answered : Sent typeName → Option RequestHeader
  | .getProtocolByName replyTo _ => some replyTo
  | _ => none

/-- What a handler does: each request for a protocol that was there or has come is answered or
waits. -/
structure Handles (s : MultinodeManager typeName) (asks : List RequestHeader)
    (res : MultinodeManager typeName × List (Sent typeName)) : Prop where
  inv : res.1.Inv
  localSubnets : res.1.localSubnets = s.localSubnets
  answers : (asks ++ s.protocolWaitlist.waiting).Perm
    (res.2.filterMap Sent.answered ++ res.1.protocolWaitlist.waiting)

omit [DecidableEq TypeId] in
/-- A handler that only adds codecs. -/
private theorem Inv.of_protocols {r : ProtocolRegistry typeName} (h : s.Inv) (hr : r.Inv)
    (hprot : r.protocols = s.protocolRegistry.protocols) :
    Inv { s with protocolRegistry := r } where
  registry := hr
  waitlist := h.waitlist
  apart k e hk := by
    rw [hprot]
    exact h.apart k e hk

/-- Those who wait for the protocol are answered. -/
private theorem processRequest_spec (h : s.Inv) (protocol : Protocol typeName) :
    Ensures (WaitlistPanic.Outside s.localSubnets)
      (fun res => res.1.Inv ∧ res.1.localSubnets = s.localSubnets ∧
        s.protocolWaitlist.waiting.Perm
          (res.2.2.map Waitlist.Hit.replyTo ++ res.1.protocolWaitlist.waiting))
      (s.processRequest ans name protocol) := by
  rw [processRequest]
  refine ((registerProtocol_spec h.registry).mapError
    WaitlistPanic.outside_registry).bind ?_
  rintro ⟨r, answer⟩ ⟨hinv, -, ⟨-, rfl, rfl⟩ | ⟨hnone, hprot, rfl, -⟩⟩
  · exact ⟨h, rfl, .refl _⟩
  · have hturns : s.protocolWaitlist.waiting.length <
        s.protocolWaitlist.entries.entries.length + 1 := by
      simp [Waitlist.waiting]
    refine (Waitlist.takeHits_spec h.waitlist hturns name).bind ?_
    rintro ⟨hits, w⟩ ⟨hw, hperm, hsub⟩
    refine ⟨⟨hinv, hw, fun k e hk => ?_⟩, rfl, hperm⟩
    obtain ⟨hk, hne⟩ := hsub k e hk
    dsimp only at hprot ⊢
    rw [hprot, Function.update_of_ne hne]
    exact h.apart k e hk

omit [DecidableEq TypeId] in
private theorem answered_routes (routes : List SetRoute) :
    (routes.map Sent.setRoute).filterMap (Sent.answered : Sent typeName → _) = [] := by
  simp [filterMap_eq_nil_iff, Sent.answered]

omit [DecidableEq TypeId] in
private theorem answered_hits (hits : List Waitlist.Hit) (resolved : ProtocolResolved typeName) :
    (hits.flatMap fun hit => [Sent.cancel hit.timerKey,
      .getProtocolByName hit.replyTo (.ok resolved)]).filterMap Sent.answered =
      hits.map Waitlist.Hit.replyTo := by
  induction hits with
  | nil => rfl
  | cons hit hits ih => simpa [filterMap_cons, Sent.answered] using ih

/-- Nobody who waits is lost. -/
private theorem onRegisterProtocol_spec (h : s.Inv) (protocol : Protocol typeName) :
    Ensures (WaitlistPanic.Outside s.localSubnets) (s.Handles [])
      (s.onRegisterProtocol ans replyTo name protocol) := by
  rw [onRegisterProtocol]
  refine (processRequest_spec h protocol).bind ?_
  rintro ⟨s₁, replyWith, hits⟩ ⟨h₁, hsub, hperm⟩
  dsimp only at h₁ hsub hperm ⊢
  rw [← hsub]
  refine (announce_spec h₁.registry s₁.localSubnets ans.room _).bind ?_
  rintro ⟨routes, r₂⟩ ⟨h₂, hprot₂⟩
  refine ((resolve_spec h₂ protocol).mapError
    WaitlistPanic.outside_registry).bind ?_
  rintro ⟨resolved, r₃⟩ ⟨h₃, hprot₃⟩
  refine ⟨h₁.of_protocols h₃ (hprot₃.trans hprot₂), hsub, ?_⟩
  rw [nil_append, filterMap_append, answered_routes, nil_append,
    filterMap_cons_none rfl, answered_hits]
  exact hperm

omit [DecidableEq TypeId] in
private theorem onUnregisterProtocol_spec (h : s.Inv) :
    s.Handles [] (s.onUnregisterProtocol ans replyTo name) := by
  obtain ⟨hinv, -, hprot⟩ := unregisterProtocol_spec h.registry
  exact ⟨⟨hinv, h.waitlist, fun k e hk => hprot _ (h.apart k e hk)⟩, rfl, .refl _⟩

/-- A request is answered or waits. -/
private theorem onGetProtocolByName_spec (h : s.Inv) (timeout : Option Duration) :
    Ensures (WaitlistPanic.Outside s.localSubnets) (s.Handles [replyTo])
      (s.onGetProtocolByName ans replyTo name timeout) := by
  rw [onGetProtocolByName.eq_def]
  split
  case h_1 protocol _ =>
    refine ((resolve_spec h.registry protocol).mapError
      WaitlistPanic.outside_registry).bind ?_
    rintro ⟨resolved, r⟩ ⟨hr, hprot⟩
    exact ⟨h.of_protocols hr hprot, rfl, .refl _⟩
  case h_2 => exact ⟨h, rfl, .refl _⟩
  case h_3 hnone =>
    split
    case h_1 => exact .inl rfl
    case h_2 k entries hins =>
      obtain ⟨hk, rfl⟩ := Roster.insert?_eq_some hins
      obtain ⟨byProtocol, hadd, hinv⟩ := h.waitlist.wait hk name replyTo ans.timerKey
      simp only [hadd, if_true]
      refine ⟨⟨h.registry, hinv, fun k' e' hk' => ?_⟩, rfl, ?_⟩
      · rw [Waitlist.lookup_wait] at hk'
        split at hk'
        case isTrue =>
          obtain rfl := Option.some.inj hk'
          exact hnone
        case isFalse => exact h.apart k' e' hk'
      · rw [Waitlist.waiting_wait]
        exact perm_append_comm

omit [DecidableEq TypeId] in
/-- A request times out. -/
private theorem onWaitlistTimeoutElapsed_spec (h : s.Inv) (k : WaitlistKey) :
    Ensures (WaitlistPanic.Outside s.localSubnets) (s.Handles [])
      (s.onWaitlistTimeoutElapsed k) := by
  rw [onWaitlistTimeoutElapsed]
  split
  case h_1 => exact ⟨h, rfl, .refl _⟩
  case h_2 e hk =>
    have hfree : s.protocolRegistry.protocolByName e.protocol = none := h.apart k e hk
    obtain ⟨byProtocol, hdiscard, hinv⟩ := h.waitlist.remove hk
    simp only [hfree, hdiscard, if_true]
    refine ⟨⟨h.registry, hinv, fun k' e' hk' => ?_⟩, rfl, Waitlist.waiting_remove hk _⟩
    exact h.apart k' e' (lookup_erase_eq_some.mp hk').2

/-- **What a message does.** -/
theorem handle_spec (h : s.Inv) (m : Message typeName) :
    Ensures (WaitlistPanic.Outside s.localSubnets) (s.Handles m.asks) (s.handle ans m) := by
  cases m with
  | registerProtocol replyTo name protocol => exact onRegisterProtocol_spec h protocol
  | unregisterProtocol replyTo name => exact onUnregisterProtocol_spec h
  | getProtocolByName replyTo name timeout => exact onGetProtocolByName_spec h timeout
  | waitlistTimeoutElapsed k => exact onWaitlistTimeoutElapsed_spec h k

/-! ### Runs -/

/-- The manager with the messages that it has handled, the latest first. -/
abbrev Run (typeName : TypeId → MessageName) :=
  History.Logged (MultinodeManager typeName) (Answers × Message typeName) (List (Sent typeName))

/-- Handle a message and go on. -/
def call (s : MultinodeManager typeName) (l : Answers × Message typeName) :
    Option (MultinodeManager typeName × List (Sent typeName)) := (s.handle l.1 l.2).toOption

/-- The runs of a manager with these subnets: messages in any order, and any answers. A message of a
timer may come at any time, with any key. -/
abbrev Runs (subnets : List (AddressRange × Unit)) (s : Run typeName) : Prop :=
  Transition.Reaches (History.step call) (fun _ _ => True) (.start (init subnets)) s

/-- The requests for a protocol so far. -/
def asked (log : List (History.Event (MultinodeManager typeName) (Answers × Message typeName)
    (List (Sent typeName)))) : List RequestHeader :=
  log.flatMap fun e => e.label.2.asks

/-- The requests for a protocol that have been answered. -/
def answered (log : List (History.Event (MultinodeManager typeName) (Answers × Message typeName)
    (List (Sent typeName)))) : List RequestHeader :=
  log.flatMap fun e => e.output.filterMap Sent.answered

/-- Who asked has been answered or still waits. -/
private theorem inv_of_runs {s : Run typeName} (h : Runs subnets s) :
    s.state.Inv ∧ s.state.localSubnets = subnets ∧
      (asked s.log).Perm (answered s.log ++ s.state.protocolWaitlist.waiting) := by
  refine History.log_invariant (P := fun s log => s.Inv ∧ s.localSubnets = subnets ∧
    (asked log).Perm (answered log ++ s.protocolWaitlist.waiting)) h ?_ ?_
  · exact ⟨⟨inv_empty, Waitlist.inv_empty, fun _ _ hk => by
      simp [init, Waitlist.empty] at hk⟩, rfl, .refl _⟩
  · rintro s s' log ⟨ans, m⟩ out ⟨hinv, hsubnets, hperm⟩ - hcall
    obtain ⟨hinv', hsubnets', hanswers⟩ := (handle_spec hinv m).of_ok (eq_ok_of_toOption hcall)
    refine ⟨hinv', hsubnets'.trans hsubnets, ?_⟩
    calc m.asks ++ asked log
      _ |>.Perm (m.asks ++ (answered log ++ s.protocolWaitlist.waiting)) := hperm.append_left _
      _ |>.Perm (answered log ++ (m.asks ++ s.protocolWaitlist.waiting)) :=
        perm_append_comm_assoc ..
      _ |>.Perm (answered log ++ (out.filterMap Sent.answered ++ s'.protocolWaitlist.waiting)) :=
        hanswers.append_left _
      _ |>.Perm (out.filterMap Sent.answered ++ (answered log ++ s'.protocolWaitlist.waiting)) :=
        perm_append_comm_assoc ..
      _ = answered (⟨s, (ans, m), out⟩ :: log) ++ s'.protocolWaitlist.waiting :=
        (append_assoc ..).symm

/-- **The waitlist is exact.** After any messages: `by_protocol` has the requests of the slot map
and no others; each of them has a timer, and its protocol is not registered; every request for a
protocol has been answered once or waits; and no check of the next handler fails. What can end the
manager is a slot map that is full or, if there are local subnets, an inbox that is. -/
theorem waitlist_exact_of_runs {subnets : List (AddressRange × Unit)} {s : Run typeName}
    (h : Runs subnets s) :
    (∀ x, (x, ()) ∈ s.state.protocolWaitlist.byProtocol ↔
      ∃ k e, s.state.protocolWaitlist.entries.lookup k = some e ∧ x = (e.protocol, some k)) ∧
    (∀ k e, s.state.protocolWaitlist.entries.lookup k = some e →
      e.timerKey.isSome = true ∧ s.state.protocolRegistry.protocolByName e.protocol = none) ∧
    (asked s.log).Perm (answered s.log ++ s.state.protocolWaitlist.waiting) ∧
    ∀ ans m e, s.state.handle ans m = .error e →
      e = .full ∨ e = .registry .full ∨ e = .tellRefused ∧ subnets ≠ [] := by
  obtain ⟨hinv, rfl, hperm⟩ := inv_of_runs h
  exact ⟨hinv.waitlist.byProtocol,
    fun k e hk => ⟨hinv.waitlist.timerKey k e hk, hinv.apart k e hk⟩, hperm,
    fun ans m e he => (handle_spec hinv m).of_error he⟩

/-- Two that wait for a protocol: the first gets it, and its timer fires too late; then the protocol
is gone, and the second waits. -/
def lateTimeout : List (Answers × Message fun _ : Unit => "message") :=
  let slots := numbered
  let ans : Answers := ⟨slots, slots, KeyData.null, false, 0⟩
  [(ans, .getProtocolByName ⟨1, ⟨7⟩⟩ "protocol" (some 5)),
    (ans, .registerProtocol ⟨2, ⟨8⟩⟩ "protocol" (Protocol.new.addType ())),
    (ans, .waitlistTimeoutElapsed (slotKey 1)),
    (ans, .unregisterProtocol ⟨3, ⟨8⟩⟩ "protocol"),
    (ans, .getProtocolByName ⟨4, ⟨9⟩⟩ "protocol" (some 5))]

theorem waitlist_exact_of_runs_late : ∃ s : Run fun _ : Unit => "message",
    Runs [] s ∧ s.log.length = 5 ∧ answered s.log = [⟨1, ⟨7⟩⟩] ∧
      s.state.protocolWaitlist.waiting = [⟨4, ⟨9⟩⟩] ∧
      (asked s.log).Perm (answered s.log ++ s.state.protocolWaitlist.waiting) := by
  have hreach : Runs [] _ := Transition.reaches_get lateTimeout rfl
  exact ⟨_, hreach, rfl, rfl, rfl, (waitlist_exact_of_runs hreach).2.2.1⟩

end MultinodeManager

end Specs

end Mm1
