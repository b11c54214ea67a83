import Mathlib.Algebra.Group.Nat.Defs
import Mm1.NameService.Server

/-!
# How long a registration lasts

A registration ends at the time at which it was made plus its `ttl`. Where this is too late to be
represented, the server takes the present time instead, and the registration is over at once.

* `holder_of_runs`: until its end, a registration outlives all requests that are not about it;
* `resolves_until_ttl_iff`: when a registration lasts for its `ttl`;
* `resolve_after_overflow`: a registration for the longest time is over at once.
-/

namespace Mm1

namespace NameServer

open Lease Transition Option

variable {latest v : Instant} {s s' : Server} {t : Readings} {key : String} {a : Address}
  {d : Directory} {l : Request × Readings}

/-- The address is unregistered from the name, or registered again. -/
def Request.IsAbout (key : String) (a : Address) : Request → Prop
  | .register key' a' _ _ => key' = key ∧ a' = a
  | .unregister key' a' => key' = key ∧ a' = a
  | .resolve _ => False

instance : (r : Request) → Decidable (r.IsAbout key a)
  | .register _ _ _ _ => inferInstanceAs (Decidable (_ ∧ _))
  | .unregister _ _ => inferInstanceAs (Decidable (_ ∧ _))
  | .resolve _ => instDecidableFalse

/-- The address is among those that are returned. -/
def Response.Returns (a : Address) : Response → Prop
  | .resolve items => a ∈ items.map Prod.fst
  | _ => False

theorem holder_since {now : Instant} :
    holder (d.since now key) a = (holder (d key) a).filter (now < ·) :=
  holder_live _ _

/-- **A request that is not about a registration** leaves it alone. -/
theorem holder_after (hv : l.2.third < v) (hl : ¬ l.1.IsAbout key a)
    (ha : holder (d key) a = some v) : holder (d.after latest l key) a = some v := by
  have hsince : holder (d.since l.2.third key) a = some v := by
    rw [holder_since, ha, filter_some, if_pos (decide_eq_true hv)]
  obtain ⟨request, t⟩ := l
  cases request with
  | register key' a' exclusive ttl =>
    rw [Directory.after]
    dsimp only
    split
    case isTrue hkey =>
      subst hkey
      have hne : a ≠ a' := fun heq => hl ⟨rfl, heq.symm⟩
      cases hacq : acquire a' exclusive (validThru latest ttl t) (d.since t.third key) with
      | none => exact hsince
      | some h =>
        rw [elim_some, holder_live, holder_acquire hacq, if_neg hne, hsince,
          filter_some, if_pos (decide_eq_true hv)]
    case isFalse => exact hsince
  | unregister key' a' =>
    rw [Directory.after]
    dsimp only
    split
    case isTrue hkey =>
      subst hkey
      exact (holder_release_of_ne _ fun heq => hl ⟨rfl, heq.symm⟩).trans hsince
    case isFalse => exact hsince
  | resolve key' => exact hsince

/-- **Until its end, a registration stays.** -/
theorem holder_of_runs
    (h : Reaches (Server.step latest) (fun s l => s.InOrder l.2 ∧ ¬ l.1.IsAbout key a) s s')
    (hs : s.clock < v → holder (s.directory key) a = some v) (hv : s'.clock < v) :
    holder (s'.directory key) a = some v := by
  refine h.invariant (P := fun s => s.clock < v → holder (s.directory key) a = some v) hs ?_ hv
  intro s l s' ih hl hstep hv
  have hdirectory := directory_step hl.1 hstep
  obtain rfl := some.inj hstep
  have hclock : s.clock ≤ l.2.third := hl.1.1.trans (hl.1.2.1.trans hl.1.2.2)
  rw [hdirectory]
  exact holder_after hv hl.2 (ih (hclock.trans_lt hv))

/-- The server after a registration. -/
def Server.registered (latest : Instant) (s : Server) (t : Readings) (key : String) (a : Address)
    (exclusive : Bool) (ttl : Duration) : Server :=
  ⟨(handle latest s.state t (.register key a exclusive ttl)).1, t.third⟩

/-- What a registration that is accepted brings. -/
theorem holder_registered (ht : s.InOrder t) {exclusive : Bool} {ttl : Duration}
    (hok : (handle latest s.state t (.register key a exclusive ttl)).2 = .register (.ok ())) :
    holder ((s.registered latest t key a exclusive ttl).directory key) a =
      (some (validThru latest ttl t)).filter (t.third < ·) := by
  have hdirectory : (s.registered latest t key a exclusive ttl).directory =
      s.directory.after latest (.register key a exclusive ttl, t) := directory_step ht rfl
  have hlast : s.clock ≤ t.third := ht.1.trans (ht.2.1.trans ht.2.2)
  have hadmits : (s.directory.since t.third).Admits key a exclusive := by
    rw [Server.directory, since_view hlast]
    rcases registers_handle latest t exclusive ttl with ⟨hadmits, -⟩ | ⟨-, hrefused, -⟩
    · exact hadmits
    · have := Response.register.inj (hok.symm.trans hrefused)
      contradiction
  cases hacq : acquire a exclusive (validThru latest ttl t) (s.directory.since t.third key) with
  | none => exact absurd hadmits (acquire_eq_none_iff.mp hacq)
  | some h =>
    rw [hdirectory, Directory.after]
    dsimp only
    rw [if_pos rfl, hacq, elim_some, holder_live, holder_acquire hacq, if_pos rfl]

/-- Who is returned by `resolve`. -/
theorem returns_iff (ht : s.InOrder t) :
    (handle latest s.state t (.resolve key)).2.Returns a ↔
      ((holder (s.directory key) a).filter (t.first < ·)).isSome = true := by
  obtain ⟨items, hr, -, hitems, -⟩ := @resolves_handle s.state key latest t
  have hview : holder (s.state.view t.first key) a =
      (holder (s.directory key) a).filter (t.first < ·) := by
    rw [← since_view ht.1]
    exact holder_since
  rw [hr, ← hview, Response.Returns, List.mem_map, isSome_iff_exists]
  constructor
  · rintro ⟨⟨b, left⟩, hmem, rfl⟩
    obtain ⟨i, hi, -⟩ := (hitems b left).mp hmem
    exact ⟨i, hi⟩
  · rintro ⟨i, hi⟩
    exact ⟨(a, i - t.first), (hitems a _).mpr ⟨i, hi, rfl⟩, rfl⟩

/-- **When a registration lasts for its `ttl`**: the time at which it ends can be represented. It is
accepted, and then looked up after any requests that neither unregister it nor register it again. -/
theorem resolves_until_ttl_iff (ht : s.InOrder t) (hlatest : t.third ≤ latest) {exclusive : Bool}
    {ttl : Duration}
    (hok : (handle latest s.state t (.register key a exclusive ttl)).2 = .register (.ok ())) :
    (∀ s' t', Reaches (Server.step latest) (fun s l => s.InOrder l.2 ∧ ¬ l.1.IsAbout key a)
        (s.registered latest t key a exclusive ttl) s' → s'.InOrder t' →
        t'.first < t.first + ttl → (handle latest s'.state t' (.resolve key)).2.Returns a) ↔
      t.first + ttl ≤ latest := by
  have hregistered := holder_registered ht hok
  constructor
  · intro hlasts
    by_contra hover
    -- the registration is over when it is made
    have hend : validThru latest ttl t = t.second := by
      rw [validThru, Instant.checkedAdd, if_neg hover, getD_none]
    have hnone : holder ((s.registered latest t key a exclusive ttl).directory key) a = none := by
      rw [hregistered, hend, filter_some, if_neg]
      simpa using ht.2.2
    have hreturns := hlasts _ ⟨t.third, t.third, t.third⟩ .refl ⟨le_rfl, le_rfl, le_rfl⟩
      (hlatest.trans_lt (not_le.mp hover))
    rw [returns_iff ⟨le_rfl, le_rfl, le_rfl⟩, hnone] at hreturns
    contradiction
  · intro hle s' t' hrun ht' hfirst
    have hend : validThru latest ttl t = t.first + ttl := by
      rw [validThru, Instant.checkedAdd, if_pos hle, getD_some]
    have hholder : holder (s'.directory key) a = some (t.first + ttl) := by
      refine holder_of_runs hrun (fun hclock => ?_) (ht'.1.trans_lt hfirst)
      have hclock : t.third < t.first + ttl := hclock
      rw [hregistered, hend, filter_some, if_pos (decide_eq_true hclock)]
    rw [returns_iff ht', hholder, filter_some, if_pos (decide_eq_true hfirst)]
    rfl

/-- Another address shares the name, and a third one is refused. -/
theorem resolves_until_ttl_shared :
    ∃ s', Reaches (Server.step 100)
        (fun s l => s.InOrder l.2 ∧ ¬ l.1.IsAbout "db" ⟨0xa1#64⟩)
        ((Server.init 0).registered 100 ⟨1, 1, 1⟩ "db" ⟨0xa1#64⟩ false 50) s' ∧
      (handle 100 s'.state ⟨50, 50, 50⟩ (.resolve "db")).2.Returns ⟨0xa1#64⟩ := by
  have hreach : Reaches (Server.step 100) (fun s l => s.InOrder l.2 ∧ ¬ l.1.IsAbout "db" ⟨0xa1#64⟩)
      ((Server.init 0).registered 100 ⟨1, 1, 1⟩ "db" ⟨0xa1#64⟩ false 50) _ := reaches_get
    [(.register "db" ⟨0xa2#64⟩ false 5, ⟨2, 2, 2⟩), (.register "db" ⟨0xa3#64⟩ true 90, ⟨3, 3, 4⟩),
      (.resolve "db", ⟨9, 9, 9⟩)] rfl
  exact ⟨_, hreach, (resolves_until_ttl_iff (by decide) (by decide) rfl).mpr (by decide) _ _ hreach
    (by decide) (by decide)⟩

/-- **A longer `ttl` ends earlier.** A second after its registration, a name is returned that was
registered for a minute, and is not if it was registered for `Duration::MAX`. -/
theorem resolve_after_overflow :
    ∃ (latest now : Instant) (short long : Duration) (s₁ s₂ : State),
      now + 10 ^ 9 ≤ latest ∧ 10 ^ 9 < short ∧ short < long ∧
      handle latest .empty ⟨now, now, now⟩ (.register "db" ⟨0xa1#64⟩ true short) =
        (s₁, .register (.ok ())) ∧
      handle latest .empty ⟨now, now, now⟩ (.register "db" ⟨0xa1#64⟩ true long) =
        (s₂, .register (.ok ())) ∧
      (handle latest s₁ ⟨now + 10 ^ 9, now + 10 ^ 9, now + 10 ^ 9⟩ (.resolve "db")).2 =
        .resolve [(⟨0xa1#64⟩, short - 10 ^ 9)] ∧
      (handle latest s₂ ⟨now + 10 ^ 9, now + 10 ^ 9, now + 10 ^ 9⟩ (.resolve "db")).2 =
        .resolve [] := by
  refine ⟨2 ^ 64 * 10 ^ 9 - 1, 2 ^ 63 * 10 ^ 9, 60 * 10 ^ 9, (2 ^ 64 - 1) * 10 ^ 9 + 999999999,
    _, _, ?_, ?_, ?_, rfl, rfl, ?_, ?_⟩
  · decide
  · decide
  · decide
  · rfl
  · rfl

end NameServer

end Mm1
