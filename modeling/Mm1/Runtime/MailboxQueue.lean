import Mathlib.Data.List.Perm.Basic
import Mm1.Runtime.Mailbox

/-!
# The queues of a mailbox

What a step of a mailbox does to messages, lane by lane: the channels and the inboxes are queues,
and no message comes from nowhere or is there twice.

* `rx_of_moves`: what is accepted goes to the end of a channel, and what is taken leaves its front;
* `inbox_of_moves`: the same of what is taken for a fork and what the fork receives;
* `countP_held`: what is accepted is in the mailbox until it is received or discarded;
* `Balanced.moves`: and so long it holds its permit.
-/

namespace Mm1

open List AddressRange Roster Function

namespace Mailbox

variable {M : Type} {m : Message M} {r : Roster Address (ForkEntry M)} {e : ForkEntry M}
  {rx : Lane → List (Message M)} {entry : ForkEntry M} {dst : Address}

/-! ### Marks -/

/-- What was accepted on a lane. -/
def acceptedOn (lane : Lane) (marks : List (Mark M)) : List (Message M) :=
  marks.flatMap fun
    | .accepted lane' m => if lane' = lane then [m] else []
    | _ => []

/-- What was taken from a channel. -/
def takenOn (lane : Lane) (marks : List (Mark M)) : List (Message M) :=
  marks.flatMap fun
    | .taken lane' m _ => if lane' = lane then [m] else []
    | _ => []

/-- What was taken from a channel for a fork. -/
def takenFor (fork : Address) (lane : Lane) (marks : List (Mark M)) : List (Message M) :=
  marks.flatMap fun
    | .taken lane' m fork' => if lane' = lane ∧ fork' = some fork then [m] else []
    | _ => []

/-- What a fork has received. -/
def receivedBy (fork : Address) (lane : Lane) (marks : List (Mark M)) : List (Message M) :=
  marks.flatMap fun
    | .received fork' lane' m => if lane' = lane ∧ fork' = fork then [m] else []
    | _ => []

/-- What was accepted, on any lane. -/
def accepted (marks : List (Mark M)) : List (Message M) :=
  marks.flatMap fun
    | .accepted _ m => [m]
    | _ => []

/-- What is not in the mailbox any more. -/
def gone (marks : List (Mark M)) : List (Message M) :=
  marks.flatMap fun
    | .taken _ m none => [m]
    | .received _ _ m => [m]
    | .discarded m => [m]
    | _ => []

/-- What was bound, and by whom. -/
def binds (marks : List (Mark M)) : List (Address × AddressRange) :=
  marks.flatMap fun
    | .bound fork r => [(fork, r)]
    | _ => []

/-- What was taken from a channel for any fork. -/
def delivered (marks : List (Mark M)) : List (Message M) :=
  marks.flatMap fun
    | .taken _ m (some _) => [m]
    | _ => []

/-- What has left the inbox of a fork. -/
def left (marks : List (Mark M)) : List (Message M) :=
  marks.flatMap fun
    | .received _ _ m => [m]
    | .discarded m => [m]
    | _ => []

section Append

variable {marks marks' : List (Mark M)} {lane : Lane} {fork : Address}

@[simp] theorem acceptedOn_append :
    acceptedOn lane (marks ++ marks') = acceptedOn lane marks ++ acceptedOn lane marks' :=
  flatMap_append

@[simp] theorem takenOn_append :
    takenOn lane (marks ++ marks') = takenOn lane marks ++ takenOn lane marks' :=
  flatMap_append

@[simp] theorem takenFor_append :
    takenFor fork lane (marks ++ marks') = takenFor fork lane marks ++ takenFor fork lane marks' :=
  flatMap_append

@[simp] theorem receivedBy_append :
    receivedBy fork lane (marks ++ marks') =
      receivedBy fork lane marks ++ receivedBy fork lane marks' :=
  flatMap_append

@[simp] theorem accepted_append : accepted (marks ++ marks') = accepted marks ++ accepted marks' :=
  flatMap_append

@[simp] theorem gone_append : gone (marks ++ marks') = gone marks ++ gone marks' := flatMap_append

@[simp] theorem binds_append : binds (marks ++ marks') = binds marks ++ binds marks' :=
  flatMap_append

end Append

theorem taken_of_mem {marks : List (Mark M)} {lane : Lane} {fork : Address}
    (h : m ∈ takenFor fork lane marks) : .taken lane m (some fork) ∈ marks := by
  obtain ⟨mark, hmark, hin⟩ := mem_flatMap.mp h
  cases mark with
  | taken lane' m' fork' =>
    by_cases hif : lane' = lane ∧ fork' = some fork
    · obtain ⟨rfl, rfl⟩ := hif
      obtain rfl : m = m' := by simpa using hin
      exact hmark
    · simp [hif] at hin
  | _ => simp at hin

theorem received_of_mem {marks : List (Mark M)} {lane : Lane} {fork : Address}
    (h : m ∈ receivedBy fork lane marks) : .received fork lane m ∈ marks := by
  obtain ⟨mark, hmark, hin⟩ := mem_flatMap.mp h
  cases mark with
  | received fork' lane' m' =>
    by_cases hif : lane' = lane ∧ fork' = fork
    · obtain ⟨rfl, rfl⟩ := hif
      obtain rfl : m = m' := by simpa using hin
      exact hmark
    · simp [hif] at hin
  | _ => simp at hin

theorem mem_accepted_of_mem {marks : List (Mark M)} {lane : Lane} (h : m ∈ acceptedOn lane marks) :
    m ∈ accepted marks := by
  obtain ⟨mark, hmark, hin⟩ := mem_flatMap.mp h
  refine mem_flatMap.mpr ⟨mark, hmark, ?_⟩
  cases mark with
  | accepted lane' m' =>
    by_cases hlane : lane' = lane
    · simpa [hlane] using hin
    · simp [hlane] at hin
  | _ => simp at hin

section Discarded

variable {messages : List (Message M)} {lane : Lane} {fork : Address}

@[simp] theorem acceptedOn_discarded : acceptedOn lane (messages.map Mark.discarded) = [] := by
  simp [acceptedOn]

@[simp] theorem takenOn_discarded : takenOn lane (messages.map Mark.discarded) = [] := by
  simp [takenOn]

@[simp] theorem takenFor_discarded : takenFor fork lane (messages.map Mark.discarded) = [] := by
  simp [takenFor]

@[simp] theorem receivedBy_discarded : receivedBy fork lane (messages.map Mark.discarded) = [] := by
  simp [receivedBy]

@[simp] theorem binds_discarded : binds (messages.map Mark.discarded) = [] := by
  simp [binds]

@[simp] theorem accepted_discarded : accepted (messages.map Mark.discarded) = [] := by
  simp [accepted]

@[simp] theorem gone_discarded : gone (messages.map Mark.discarded) = messages := by
  rw [gone, flatMap_map]
  exact flatMap_singleton' messages

@[simp] theorem delivered_discarded : delivered (messages.map Mark.discarded) = [] := by
  simp [delivered]

@[simp] theorem left_discarded : left (messages.map Mark.discarded) = messages := by
  rw [left, flatMap_map]
  exact flatMap_singleton' messages

end Discarded

/-- The messages that hold a permit of a node. -/
def holds (n : ℕ) (m : Message M) : Bool := m.permit = some n

/-- What `process_inlets` puts into an inbox: on the priority lane everything but pings. -/
def ordinary (lane : Lane) (m : Message M) : Bool :=
  match lane, m.envelope.content with
  | .priority, .ping _ _ => false
  | _, _ => true

/-- Only pings are not ordinary. -/
private theorem ordinary_eq_false {lane : Lane} : ordinary lane m = false ↔
    lane = .priority ∧ ∃ replyTo id, m.envelope.content = .ping replyTo id := by
  rw [ordinary.eq_def]
  cases lane with
  | regular => simp
  | priority => cases m.envelope.content <;> simp

theorem ordinary_congr {lane : Lane} {m m' : Message M}
    (h : m.envelope.content = m'.envelope.content) : ordinary lane m = ordinary lane m' := by
  rw [ordinary.eq_def, ordinary.eq_def, h]

/-- What is taken for a fork, among all that is taken. -/
theorem filter_takenOn {marks : List (Mark M)} {p : Message M → Bool} {lane : Lane} {a : Address}
    (h : ∀ m fork, .taken lane m fork ∈ marks → p m = true →
      (ordinary lane m = true ↔ fork = some a)) :
    (takenOn lane marks).filter (fun m => p m && ordinary lane m) =
      (takenFor a lane marks).filter p := by
  induction marks with
  | nil => rfl
  | cons mark marks ih =>
    have hrest := ih fun m fork hmark => h m fork (mem_cons_of_mem _ hmark)
    simp only [takenOn, takenFor, flatMap_cons, filter_append] at hrest ⊢
    rw [hrest]
    congr 1
    cases mark with
    | taken lane' m fork =>
      by_cases hlane : lane' = lane
      · subst hlane
        cases hp : p m with
        | false => by_cases hfork : fork = some a <;> simp [hp, hfork]
        | true =>
          have hiff := h m fork mem_cons_self hp
          by_cases hfork : fork = some a <;> simp [hp, hfork, hiff]
      · simp [hlane]
    | _ => rfl

namespace SubnetContext

open OrderedMap

variable {s s' : SubnetContext M} {l : Label M} {marks : List (Mark M)} {a : Address}
  {lane lane' : Lane} {fork : Address}

/-! ### Channels -/

/-- What becomes of a mailbox without the fork. -/
theorem drop_spec (s : SubnetContext M) (fork : Address) (entry : ForkEntry M) :
    (s.drop fork entry).1.rx = s.rx ∧
      (s.drop fork entry).1.forkEntries = s.forkEntries.erase fork ∧
      (s.drop fork entry).1.boundSubnets = (s.unbind fork).boundSubnets ∧
      (s.drop fork entry).1.subnetAddress = s.subnetAddress ∧
      (s.drop fork entry).1.subnets = s.subnets := by
  obtain ⟨hrx, hforks, hbound, -, hsubnet, hnodes⟩ :=
    foldl_release (entry.inbox .priority ++ entry.inbox .regular) (s.without fork)
  rw [SubnetContext.drop]
  dsimp only
  split
  · exact ⟨hrx, hforks, hbound, hsubnet, hnodes⟩
  · exact ⟨hrx, hforks, hbound, hsubnet, hnodes⟩

@[simp] theorem drop_rx (s : SubnetContext M) (fork : Address) (entry : ForkEntry M) :
    (s.drop fork entry).1.rx = s.rx := (s.drop_spec fork entry).1

@[simp] theorem drop_forkEntries (s : SubnetContext M) (fork : Address) (entry : ForkEntry M) :
    (s.drop fork entry).1.forkEntries = s.forkEntries.erase fork := (s.drop_spec fork entry).2.1

/-- The head of one lane is taken. -/
private theorem update_cons {rest : List (Message M)} (h : rx lane = m :: rest) :
    rx lane' = (if lane = lane' then [m] else []) ++ update rx lane rest lane' := by
  rw [update_apply]
  by_cases hlane : lane' = lane
  · subst hlane
    rw [if_pos rfl, if_pos rfl, h]
    rfl
  · rw [if_neg (Ne.symm hlane), if_neg hlane]
    rfl

/-- A message comes to one lane. -/
private theorem update_append :
    update rx lane (rx lane ++ [m]) lane' =
      rx lane' ++ if lane = lane' then [m] else [] := by
  rw [update_apply]
  by_cases hlane : lane' = lane
  · subst hlane
    rw [if_pos rfl, if_pos rfl]
  · rw [if_neg (Ne.symm hlane), if_neg hlane, append_nil]

/-- **The channels are queues.** -/
theorem rx_of_moves (h : Moves s l s' marks) (lane : Lane) :
    s.rx lane ++ acceptedOn lane marks = takenOn lane marks ++ s'.rx lane := by
  cases h with
  | idle | create | bind => simp [acceptedOn, takenOn]
  | acceptPriority | acceptRegular => simp [acceptedOn, takenOn, acquire, update_append]
  | lose hrx | absorb hrx => simp [acceptedOn, takenOn, update_cons hrx]
  | answer hrx =>
    rw [push_rx, update_append, update_cons hrx]
    simp [acceptedOn, takenOn]
  | deliver hrx => simp [acceptedOn, takenOn, update_cons hrx]
  | receive => simp [acceptedOn, takenOn, pop]
  | drop => rw [acceptedOn_discarded, takenOn_discarded, drop_rx, append_nil, nil_append]

/-! ### Inboxes -/

/-- The inbox of a fork. -/
def inboxOf (s : SubnetContext M) (a : Address) (lane : Lane) : List (Message M) :=
  ((s.forkEntries.lookup a).map fun e => e.inbox lane).getD []

private theorem inbox_push :
    (e.push lane m).inbox lane' = e.inbox lane' ++ if lane = lane' then [m] else [] :=
  update_append

/-- **The inboxes are queues.** -/
theorem inbox_of_moves (h : Moves s l s' marks) (halive : (s'.forkEntries.lookup a).isSome = true)
    (hnew : .created a ∉ marks) (lane : Lane) :
    s.inboxOf a lane ++ takenFor a lane marks = receivedBy a lane marks ++ s'.inboxOf a lane := by
  cases h with
  | idle | bind => simp [takenFor, receivedBy, inboxOf]
  | acceptPriority | acceptRegular => simp [takenFor, receivedBy, inboxOf, push, acquire]
  | lose hrx => simp [takenFor, receivedBy, inboxOf]
  | absorb hrx hping hf =>
    simp only [inboxOf, lookup_modify]
    split <;> simp [takenFor, receivedBy, comp_def, hf]
  | answer hrx => simp [takenFor, receivedBy, inboxOf, push]
  | @deliver l lane' m rest hrx hfork hother =>
    obtain ⟨entry, hentry⟩ := Option.isSome_iff_exists.mp hfork
    simp only [inboxOf, lookup_modify]
    by_cases ha : a = s.route m.dst
    · simp [takenFor, receivedBy, ← ha, ha ▸ hentry, inbox_push]
    · simp [takenFor, receivedBy, ha, Ne.symm ha]
  | @receive l fork lane' m rest entry i hinlets hlane hself hfork hinbox hfirst =>
    simp only [inboxOf, pop, release_forkEntries, lookup_modify]
    by_cases ha : a = fork
    · subst ha
      simpa [takenFor, receivedBy, hfork] using update_cons hinbox
    · simp [takenFor, receivedBy, ha, Ne.symm ha]
  | @create b hsome hin hnone =>
    have hne : a ≠ b := by
      rintro rfl
      exact hnew (mem_singleton_self _)
    simp [takenFor, receivedBy, inboxOf, lookup_put, hne]
  | @drop fork entry hfork =>
    obtain ⟨e, he⟩ := Option.isSome_iff_exists.mp halive
    rw [drop_forkEntries] at he
    have hold := (lookup_erase_eq_some.mp he).2
    rw [takenFor_discarded, receivedBy_discarded, append_nil, nil_append, inboxOf,
      inboxOf, drop_forkEntries, he, hold]

/-! ### Routing -/

/-- An address is its own, or is bound. -/
theorem route_cases (s : SubnetContext M) (dst : Address) :
    s.route dst = dst ∨ ∃ r, (r, s.route dst) ∈ s.boundSubnets ∧ r.Mem dst := by
  rw [route]
  cases hentry : entry AddressRange.cmp (.ofAddress dst) s.boundSubnets with
  | none => exact .inl rfl
  | some e =>
    obtain ⟨hmem, hcmp⟩ := mem_of_entry hentry
    exact .inr ⟨e.1, hmem, cmp_ofAddress.mp hcmp⟩

/-- A bound address goes to its fork. -/
theorem Wf.route_of_bound (h : s.Wf) {r : AddressRange} (hbound : (r, a) ∈ s.boundSubnets)
    (hdst : r.Mem dst) : s.route dst = a := by
  have hcmp := cmp_ofAddress.mpr hdst
  have hsome := (isSome_entry_iff h.sorted).mpr ⟨(r, a), hbound, hcmp⟩
  obtain ⟨e, he⟩ := Option.isSome_iff_exists.mp hsome
  obtain ⟨hmem, hcmp'⟩ := mem_of_entry he
  have hover := (cmp_ofAddress.mp hcmp').overlap hdst
  have hkey := eq_of_sorted h.sorted e hmem (r, a) hbound hover
  have hsame := inj_on_of_nodup_map (nodup_of_sorted h.sorted) hmem hbound hkey
  rw [route, he, hsame]
  rfl

theorem Wf.route_of_own (h : s.Wf) (hdst : (ofNet s.subnetAddress).Mem dst) :
    s.route dst = dst := by
  rcases s.route_cases dst with hself | ⟨r, hbound, hr⟩
  · exact hself
  · exact absurd (hdst.overlap hr) (h.apart _ hbound)

/-- Where a message goes that is taken from a channel. -/
theorem taken_of_moves (h : Moves s l s' marks) {lane : Lane} {fork : Option Address}
    (hmark : .taken lane m fork ∈ marks) :
    m ∈ s.rx lane ∧
      ((s.forkEntries.lookup (s.route m.dst)).isSome = true → ordinary lane m = true →
        fork = some (s.route m.dst)) ∧
      (fork ≠ none → fork = some (s.route m.dst) ∧ ordinary lane m = true) := by
  have hhead : ∀ {lane' m' rest}, s.rx lane' = m' :: rest → m' ∈ s.rx lane' := by
    intro lane' m' rest hrx
    rw [hrx]
    exact mem_cons_self
  cases h with
  | idle | acceptPriority | acceptRegular | receive | create | bind | drop => simp at hmark
  | lose hrx hnone =>
    obtain ⟨rfl, rfl, rfl⟩ := Mark.taken.inj (mem_singleton.mp hmark)
    exact ⟨hhead hrx, fun hsome => by simp [hnone] at hsome, fun hne => absurd rfl hne⟩
  | absorb hrx hping =>
    obtain ⟨rfl, rfl, rfl⟩ := Mark.taken.inj (mem_singleton.mp hmark)
    have hfalse := ordinary_eq_false.mpr ⟨rfl, _, _, hping⟩
    exact ⟨hhead hrx, fun _ htrue => by simp [hfalse] at htrue, fun hne => absurd rfl hne⟩
  | answer hrx hping =>
    obtain ⟨rfl, rfl, rfl⟩ : lane = .priority ∧ _ ∧ fork = none := by simpa using hmark
    have hfalse := ordinary_eq_false.mpr ⟨rfl, _, _, hping⟩
    exact ⟨hhead hrx, fun _ htrue => by simp [hfalse] at htrue, fun hne => absurd rfl hne⟩
  | deliver hrx hfork hother =>
    obtain ⟨rfl, rfl, rfl⟩ := Mark.taken.inj (mem_singleton.mp hmark)
    have htrue := Bool.not_eq_false _ ▸ mt ordinary_eq_false.mp hother
    exact ⟨hhead hrx, fun _ _ => rfl, fun _ => ⟨rfl, htrue⟩⟩

/-! ### Custody -/

/-- What is in the inboxes of the forks. -/
def inboxes (forkEntries : Roster Address (ForkEntry M)) : List (Message M) :=
  forkEntries.entries.flatMap fun e => e.2.inbox .priority ++ e.2.inbox .regular

/-- What is in the mailbox. -/
def held (s : SubnetContext M) : List (Message M) :=
  s.rx .priority ++ s.rx .regular ++ inboxes s.forkEntries

private theorem inboxes_erase (h : r.lookup a = some e) :
    (inboxes r).Perm (e.inbox .priority ++ e.inbox .regular ++ inboxes (r.erase a)) :=
  (perm_erase h).flatMap_right _

private theorem inboxes_modify {f : ForkEntry M → ForkEntry M} (h : r.lookup a = some e) :
    (inboxes (r.modify a f)).Perm
      ((f e).inbox .priority ++ (f e).inbox .regular ++ inboxes (r.erase a)) :=
  (perm_modify h).flatMap_right _

theorem inboxes_put (h : r.lookup a = none) : inboxes (r.put a .default) = inboxes r := by
  rw [Roster.put, dif_pos h]
  simp [inboxes, Roster.push, ForkEntry.default]

section Count

-- Messages are counted by an arbitrary `q`, so that the equations are linear.
variable (q : Message M → Bool)

/-- What is accepted is on one of the lanes. -/
private theorem countP_accepted (marks : List (Mark M)) :
    (accepted marks).countP q =
      (acceptedOn .priority marks).countP q + (acceptedOn .regular marks).countP q := by
  induction marks with
  | nil => rfl
  | cons mark marks ih =>
    simp only [accepted, acceptedOn, flatMap_cons, countP_append] at ih ⊢
    rcases mark with ⟨lane, m⟩ | _ | _ | _ | _ | _
    · cases lane <;> simp <;> omega
    all_goals simpa using ih

/-- Where the messages that are taken go. -/
private theorem countP_taken (marks : List (Mark M)) :
    (takenOn .priority marks).countP q + (takenOn .regular marks).countP q +
        (left marks).countP q = (gone marks).countP q + (delivered marks).countP q := by
  induction marks with
  | nil => rfl
  | cons mark marks ih =>
    simp only [takenOn, left, gone, delivered, flatMap_cons, countP_append] at ih ⊢
    rcases mark with _ | ⟨lane, m, _ | fork⟩ | _ | _ | _ | _
    case taken.none | taken.some => cases lane <;> simp <;> omega
    case received | discarded =>
      simp
      omega
    all_goals simpa using ih

/-- What a step adds to the inboxes and takes from them. -/
private theorem countP_inboxes (h : Moves s l s' marks) :
    (inboxes s.forkEntries).countP q + (delivered marks).countP q =
      (left marks).countP q + (inboxes s'.forkEntries).countP q := by
  cases h with
  | idle | bind => simp [delivered, left]
  | acceptPriority | acceptRegular => simp [delivered, left, push, acquire]
  | lose hrx => simp [delivered, left]
  | @absorb l m rest replyTo pingId hrx hping f hf =>
    have hkept := map_modify (r := s.forkEntries) (k := s.route m.dst)
      (g := fun e => e.inbox .priority ++ e.inbox .regular) fun e => by rw [hf e]
    simp only [delivered, left, inboxes, flatMap_def, hkept]
    simp
  | answer hrx => simp [delivered, left, push]
  | @deliver l lane' m rest hrx hfork hother =>
    obtain ⟨entry, hentry⟩ := Option.isSome_iff_exists.mp hfork
    rw [(inboxes_erase hentry).countP_eq, (inboxes_modify hentry).countP_eq]
    cases lane' <;> simp [delivered, left, inbox_push, countP_cons] <;> omega
  | @receive l fork lane' m rest entry i hinlets hlane hself hfork hinbox hfirst =>
    rw [(inboxes_erase hfork).countP_eq, pop, release_forkEntries, (inboxes_modify hfork).countP_eq]
    cases lane' <;> simp [delivered, left, hinbox, countP_cons] <;> omega
  | create _ _ hnone => simp [delivered, left, inboxes_put hnone]
  | drop hfork =>
    rw [drop_forkEntries, (inboxes_erase hfork).countP_eq, delivered_discarded, left_discarded,
      countP_append, countP_nil, Nat.add_zero]

/-- **No message comes from nowhere, and none is there twice.** -/
theorem countP_held (h : Moves s l s' marks) :
    s.held.countP q + (accepted marks).countP q =
      (gone marks).countP q + s'.held.countP q := by
  have hpriority := congrArg (List.countP q) (rx_of_moves h .priority)
  have hregular := congrArg (List.countP q) (rx_of_moves h .regular)
  have hinboxes := countP_inboxes q h
  have haccepted := countP_accepted q marks
  have htaken := countP_taken q marks
  simp only [countP_append] at hpriority hregular
  simp only [held, countP_append]
  omega

end Count

/-! ### Permits -/

/-- The permits of a node in all. -/
def inboxSize (s : SubnetContext M) (n : ℕ) : ℕ := (s.nodes[n]?.map Node.inboxSize).getD 0

/-- Every permit is left, or held by a message that is in the mailbox. -/
def Balanced (s : SubnetContext M) : Prop :=
  ∀ n, s.available n + s.held.countP (holds n) = s.inboxSize n

private theorem available_acquire (s : SubnetContext M) (n n' : ℕ) :
    (s.acquire n).available n' = if n = n' then s.available n' - 1 else s.available n' := by
  rw [acquire, available, available, List.getElem?_modify]
  by_cases hn : n = n'
  · cases s.nodes[n']? <;> simp [hn]
  · simp [hn]

private theorem inboxSize_acquire (s : SubnetContext M) (n n' : ℕ) :
    (s.acquire n).inboxSize n' = s.inboxSize n' := by
  rw [acquire, inboxSize, inboxSize, List.getElem?_modify]
  cases s.nodes[n']? with
  | none => rfl
  | some node => by_cases hn : n = n' <;> simp [hn]

private theorem inboxSize_release (s : SubnetContext M) (m : Message M) (n : ℕ) :
    (s.release m).inboxSize n = s.inboxSize n := by
  rw [release]
  split
  · rfl
  · rw [inboxSize, inboxSize, List.getElem?_modify]
    cases s.nodes[n]? with
    | none => rfl
    | some node => split <;> rfl

/-- A message gives its permit back. -/
private theorem available_release (h : ∀ n, m.permit = some n → n < s.nodes.length) (n : ℕ) :
    (s.release m).available n = s.available n + [m].countP (holds n) := by
  rw [release]
  split
  case h_1 hnone => simp [holds, hnone]
  case h_2 n' hsome =>
    rw [available, available, List.getElem?_modify]
    by_cases hn : n' = n
    · subst hn
      simp [holds, hsome, h n' hsome]
    · simp [holds, hsome, hn]

private theorem length_release (s : SubnetContext M) (m : Message M) :
    (s.release m).nodes.length = s.nodes.length := by
  have hlen := congrArg List.length (release_subnets s m)
  simpa [subnets] using hlen

/-- Messages give their permits back. -/
private theorem available_foldl_release {messages : List (Message M)}
    (h : ∀ m ∈ messages, ∀ n, m.permit = some n → n < s.nodes.length) (n : ℕ) :
    (messages.foldl release s).available n = s.available n + messages.countP (holds n) ∧
      (messages.foldl release s).inboxSize n = s.inboxSize n := by
  induction messages generalizing s with
  | nil => exact ⟨rfl, rfl⟩
  | cons m messages ih =>
    obtain ⟨hm, hrest⟩ := forall_mem_cons.mp h
    obtain ⟨havailable, hsize⟩ := ih (s := s.release m) fun m' hm' => by
      rw [length_release]
      exact hrest m' hm'
    refine ⟨?_, hsize.trans (inboxSize_release s m n)⟩
    have hcons : (m :: messages).countP (holds n) =
        [m].countP (holds n) + messages.countP (holds n) := by
      rw [← countP_append, singleton_append]
    rw [foldl_cons, havailable, available_release hm, hcons]
    omega

/-- A permit that is held is one of a node. -/
private theorem Balanced.lt (h : s.Balanced) (hm : m ∈ s.held) {n : ℕ}
    (hpermit : m.permit = some n) : n < s.nodes.length := by
  by_contra hn
  have hnode : s.nodes[n]? = none := List.getElem?_eq_none (Nat.le_of_not_lt hn)
  have hpos : 0 < s.held.countP (holds n) := countP_pos_iff.mpr ⟨m, hm, by simp [holds, hpermit]⟩
  have hsum := h n
  rw [inboxSize, available, hnode] at hsum
  have hzero : s.held.countP (holds n) = 0 := (Nat.zero_add _).symm.trans hsum
  omega

private theorem mem_held_of_rx {lane : Lane} (h : m ∈ s.rx lane) : m ∈ s.held := by
  cases lane <;> simp [held, h]

private theorem mem_held_of_inbox (hfork : s.forkEntries.lookup fork = some entry)
    (h : m ∈ entry.inbox .priority ++ entry.inbox .regular) : m ∈ s.held := by
  refine mem_append_right _ (mem_flatMap.mpr ⟨(fork, entry), ?_, h⟩)
  exact lookup_eq_some_iff.mp hfork

/-- A message of an inbox is held. -/
theorem mem_held_of_inboxOf {lane : Lane} (h : m ∈ s.inboxOf a lane) : m ∈ s.held := by
  cases hfork : s.forkEntries.lookup a with
  | none => simp [inboxOf, hfork] at h
  | some entry =>
    have hm : m ∈ entry.inbox lane := by simpa [inboxOf, hfork] using h
    refine mem_held_of_inbox hfork (mem_append.mpr ?_)
    cases lane with
    | priority => exact .inl hm
    | regular => exact .inr hm

/-- A dropped fork gives its permits back. -/
private theorem available_drop (h : s.Balanced) (hfork : s.forkEntries.lookup fork = some entry)
    (n : ℕ) :
    (s.drop fork entry).1.available n = s.available n +
        (entry.inbox .priority ++ entry.inbox .regular).countP (holds n) ∧
      (s.drop fork entry).1.inboxSize n = s.inboxSize n := by
  have hrelease := available_foldl_release (s := s.without fork) (fun m hm n hpermit =>
    h.lt (mem_held_of_inbox hfork hm) hpermit) n
  rw [SubnetContext.drop]
  dsimp only
  split
  · exact hrelease
  · exact hrelease

/-- What a step does to the permits of a node. A new node has all of its permits. -/
private theorem available_of_moves (hwf : s.Wf) (h : s.Balanced) (hmove : Moves s l s' marks)
    (n : ℕ) :
    s'.available n + (accepted marks).countP (holds n) + s.inboxSize n =
      s.available n + (gone marks).countP (holds n) + s'.inboxSize n := by
  cases hmove with
  | idle | create => simp [accepted, gone, available, inboxSize]
  | acceptPriority => simp [accepted, gone, available, inboxSize, push, holds]
  | @acceptRegular n' dst envelope isOpen hreach hfree =>
    have havailable : ((s.acquire n').push .regular ⟨dst, envelope, some n'⟩).1.available n = _ :=
      available_acquire s n' n
    have hsize : ((s.acquire n').push .regular ⟨dst, envelope, some n'⟩).1.inboxSize n = _ :=
      inboxSize_acquire s n' n
    rw [havailable, hsize]
    by_cases hn : n' = n
    · subst hn
      simp [accepted, gone, holds]
      omega
    · simp [accepted, gone, holds, hn]
  | @lose l lane m rest hrx hnone =>
    have hm : m ∈ s.rx lane := by rw [hrx]; exact mem_cons_self
    rw [available_release, inboxSize_release]
    · simp [accepted, gone, available, inboxSize]
    · exact fun n hpermit => h.lt (mem_held_of_rx hm) hpermit
  | @absorb l m rest replyTo pingId hrx hping f hf =>
    have hm : m.permit = none := hwf.plain m (by rw [hrx]; exact mem_cons_self)
    simp [accepted, gone, available, inboxSize, holds, hm]
  | @answer l m rest replyTo pingId hrx hping n' dst envelope hreach hpong =>
    have hm : m.permit = none := hwf.plain m (by rw [hrx]; exact mem_cons_self)
    simp [accepted, gone, available, inboxSize, holds, hm, push]
  | deliver hrx hfork hother => simp [accepted, gone, available, inboxSize]
  | @receive l fork lane m rest entry i hinlets hlane hself hfork hinbox hfirst =>
    have hm : m ∈ entry.inbox lane := by rw [hinbox]; exact mem_cons_self
    have hheld : m ∈ s.held := mem_held_of_inbox hfork (by cases lane <;> simp [hm])
    rw [pop, available_release, inboxSize_release]
    · simp [accepted, gone, available, inboxSize]
    · exact fun n hpermit => h.lt hheld hpermit
  | @bind fork bindTo size granted registry hfork hfree hregister =>
    simp only [accepted, gone, available, inboxSize, List.getElem?_append]
    split
    · simp
    case isFalse hn =>
      have hnode : s.nodes[n]? = none := List.getElem?_eq_none (Nat.le_of_not_lt hn)
      rw [hnode]
      cases hnew : [Node.new bindTo size][n - s.nodes.length]? with
      | none => simp
      | some node =>
        obtain rfl := mem_singleton.mp (mem_of_getElem? hnew)
        simp [Node.new]
  | drop hfork =>
    obtain ⟨havailable, hsize⟩ := available_drop h hfork n
    rw [havailable, hsize, accepted_discarded, gone_discarded]
    rfl

/-- **Every step keeps the permits balanced.** -/
theorem Balanced.moves (hwf : s.Wf) (h : s.Balanced) (hmove : Moves s l s' marks) :
    s'.Balanced := by
  intro n
  have hbalance := h n
  have hheld := countP_held (holds n) hmove
  have havailable := available_of_moves hwf h hmove n
  omega

end SubnetContext

end Mailbox

end Mm1
