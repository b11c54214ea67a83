import Mm1.Lib.Exchange
import Mm1.Multinode.Pdu

/-!
# The handshake of a connection

`hello::run`: each side writes a header with its capabilities and reads that of the peer, both sides
exchange cookies if that is what they are configured for, and at last each of them says that it is
done. A side writes and reads at the same time (`try_join`) and goes on when it has done both.

The handshake of a side is a program of `Exchange`. What two sides write and read in each round
follows from their configurations (`exists_plan`), and with it where the handshake ends, however
the bytes are cut on their way (`handshake_ends`).
-/

namespace Mm1

open Exchange Transition Codec

/-! ### What is written -/

/-- `CapAuthc`. -/
inductive CapAuthc
  | trusted
  | cookie
  | sharedSecret
  deriving DecidableEq

/-- `AuthcConfig`. -/
inductive AuthcConfig
  | trusted
  | cookie (cookie : String)
  | sharedSecret (secret : String)

namespace CapAuthc

def toU32 : CapAuthc → UInt32
  | trusted => 0
  | cookie => 1
  | sharedSecret => 2

def ofU32 : UInt32 → Option CapAuthc
  | 0 => some trusted
  | 1 => some cookie
  | 2 => some sharedSecret
  | _ => none

/-- The number of the variant. -/
def codec : Codec CapAuthc := u32.filterMap ofU32 toU32 fun c => by cases c <;> rfl

end CapAuthc

/-- `capabilities`. -/
def capabilities : AuthcConfig → CapAuthc
  | .trusted => .trusted
  | .cookie _ => .cookie
  | .sharedSecret _ => .sharedSecret

/-- `HELLO`: the text `MM1!`. -/
def helloMagic : List UInt8 := [77, 77, 49, 33]

/-- The header that a side writes first. -/
def outboundHello (caps : CapAuthc) : Hello where
  val := pad 30 (helloMagic ++ CapAuthc.codec.encode caps)
  property := length_pad (by cases caps <;> decide)

/-- The checks of the header that a side reads first. -/
def checkHello (inbound : Hello) : Option CapAuthc :=
  if inbound.1.take helloMagic.length ≠ helloMagic then none
  else
    match CapAuthc.codec.decode (inbound.1.drop helloMagic.length) with
    | none => none
    | some (caps, shouldBeZeroes) => if shouldBeZeroes.all (· = 0) then some caps else none

private theorem checkHello_outboundHello (caps : CapAuthc) :
    checkHello (outboundHello caps) = some caps := by
  cases caps <;> decide

/-- `Negotiate`. -/
inductive Negotiate
  | cookie (len : UInt16)
  | done

namespace Negotiate

/-- The number of the variant, then its field. -/
def codec : Codec Negotiate where
  encode
    | cookie len => u32.encode 0 ++ u16.encode len
    | done => u32.encode 1
  decode input := do
    let (variant, rest) ← u32.decode input
    match variant with
    | 0 => (u16.decode rest).map fun p => (cookie p.1, p.2)
    | 1 => some (done, rest)
    | _ => none
  maxLength := 8
  length_encode_le
    | cookie len => by
      have htag := u32.length_encode_le 0
      have hlen := u16.length_encode_le len
      rw [maxLength_u32] at htag
      rw [maxLength_u16] at hlen
      rw [List.length_append]
      omega
    | done => (u32.length_encode_le 1).trans (by decide)
  decode_encode n rest := by cases n <;> simp

/-- Twice the size of a `Negotiate` in memory. -/
def frameSize : ℕ := 16

/-- `write_negotiate`. -/
def frame (n : Negotiate) : List UInt8 := pad frameSize (codec.encode n)

/-- `read_negotiate`, of the bytes of a frame. -/
def ofFrame (buf : List UInt8) : Option Negotiate := (codec.decode buf).map Prod.fst

private theorem length_frame (n : Negotiate) : n.frame.length = frameSize :=
  length_pad ((codec.length_encode_le n).trans (by decide))

private theorem ofFrame_frame (n : Negotiate) : ofFrame n.frame = some n := by
  rw [ofFrame, frame, decode_pad]
  rfl

end Negotiate

/-! ### The handshake -/

/-- `negotiate_done`: what is done with the frame that was read. -/
def onDone (buf : List UInt8) : Prog UInt8 :=
  match Negotiate.ofFrame buf with
  | some .done => .round [] .done
  | _ => .fail

/-- `negotiate_done`. -/
def negotiateDone : Prog UInt8 := .round Negotiate.done.frame (.read Negotiate.frameSize onDone)

private theorem onDone_frame : onDone Negotiate.done.frame = .round [] .done := by
  rw [onDone, Negotiate.ofFrame_frame]

/-- The comparison of the cookies. -/
def onCookie (cookie buf : List UInt8) : Prog UInt8 :=
  if buf = cookie then negotiateDone else .fail

/-- What is done with the frame before the cookie. -/
def onNegotiate (cookie buf : List UInt8) : Prog UInt8 :=
  match Negotiate.ofFrame buf with
  | some (.cookie len) => .read len.toNat (onCookie cookie)
  | _ => .fail

/-- What is written of a cookie: its length, and the cookie. -/
def cookieFrame (cookie : List UInt8) : List UInt8 :=
  (Negotiate.cookie (UInt16.ofNat cookie.length)).frame ++ cookie

/-- `negotiate_authc` with a cookie. A cookie that is too long is an error before anything is
written. -/
def negotiateCookie (cookie : List UInt8) : Prog UInt8 :=
  if cookie.length < 2 ^ 16 then
    .round (cookieFrame cookie) (.read Negotiate.frameSize (onNegotiate cookie))
  else .round [] .fail

private theorem not_isRead_onCookie (cookie buf : List UInt8) : ¬ (onCookie cookie buf).IsRead := by
  rw [onCookie]
  split <;> exact id

/-- A cookie that is read is compared with the one of this side. -/
private theorem reads_cookieFrame {peer : List UInt8} (hpeer : peer.length < 2 ^ 16)
    (cookie : List UInt8) :
    Reads (.read Negotiate.frameSize (onNegotiate cookie)) (cookieFrame peer)
      (onCookie cookie peer) := by
  refine Reads.read (Negotiate.length_frame _) ?_
  rw [onNegotiate, Negotiate.ofFrame_frame]
  exact reads_read (toNat_ofNat_u16 hpeer).symm (not_isRead_onCookie cookie peer)

/-- The rest of `negotiate_authc`, and `negotiate_done` after it. -/
def authenticate : AuthcConfig → Prog UInt8
  | .trusted => negotiateDone
  | .cookie cookie => negotiateCookie (asBytes cookie)
  | .sharedSecret _ => .round [] .fail

/-- `negotiate_authc`: both sides must want the same. -/
def negotiateAuthc (config : AuthcConfig) (peer : CapAuthc) : Prog UInt8 :=
  if capabilities config ≠ peer then .round [] .fail else authenticate config

/-- `run`: what is done with the header that was read. -/
def onHello (config : AuthcConfig) (buf : List UInt8) : Prog UInt8 :=
  match (Header.codec KeyData.codec).decode buf with
  | none => .fail
  | some (.hello inbound, _) =>
    match checkHello inbound with
    | none => .round [] .fail
    | some peer => negotiateAuthc config peer
  | some _ => .round [] .fail

/-- The header that a side writes first, as a frame. -/
def helloFrame (config : AuthcConfig) : List UInt8 :=
  (Header.hello (outboundHello (capabilities config))).frame

private theorem length_helloFrame (config : AuthcConfig) :
    (helloFrame config).length = headerFrameSize := Header.length_frame _

/-- `run`. -/
def handshake (config : AuthcConfig) : Prog UInt8 :=
  .round (helloFrame config) (.read headerFrameSize (onHello config))

/-- The header of the peer is read. -/
private theorem onHello_helloFrame (config peer : AuthcConfig) :
    onHello config (helloFrame peer) = negotiateAuthc config (capabilities peer) := by
  rw [onHello, helloFrame, Header.frame, decode_pad]
  simp only [checkHello_outboundHello]

/-! ### The rounds of two sides -/

private theorem not_isRead_negotiateAuthc (config : AuthcConfig) (peer : CapAuthc) :
    ¬ (negotiateAuthc config peer).IsRead := by
  rw [negotiateAuthc]
  split
  · exact id
  · cases config with
    | trusted => exact id
    | cookie cookie =>
      rw [authenticate, negotiateCookie]
      split <;> exact id
    | sharedSecret secret => exact id

/-- Both sides fail, without another round. -/
def planFail {p : Bool → Prog UInt8} (h : ∀ i, (p i).start = ⟨[], .fail, []⟩) : Plan p :=
  .ofEnds (fun _ => .fail) h (fun _ => id) fun _ _ _ => rfl

/-- The last round, after which both sides are done. -/
def planDone : Plan fun _ => negotiateDone :=
  Plan.cons (q := fun _ => .round [] .done)
    (.ofEnds (fun _ => .done) (fun _ => rfl) (fun _ => id) fun _ _ hout => by contradiction)
    (fun _ => Negotiate.done.frame) fun _ => by
      refine ⟨_, rfl, ?_⟩
      have hreads := reads_read (k := onDone) Negotiate.done.length_frame
      rw [onDone_frame] at hreads
      exact hreads id

private theorem ins_planDone (i : Bool) : ins (planDone.roundsOf i) = Negotiate.done.frame := by
  cases i <;> exact List.append_nil _

/-- What a side has read when it is done: with a cookie, a header, a frame, its own cookie, and a
frame. -/
def Received : AuthcConfig → List UInt8 → Prop
  | .cookie cookie, bytes => ∃ hello negotiate done,
    bytes = hello ++ negotiate ++ asBytes cookie ++ done ∧ hello.length = headerFrameSize ∧
      negotiate.length = Negotiate.frameSize ∧ done.length = Negotiate.frameSize
  | _, _ => True

private theorem negotiateCookie_of_lt {cookie : List UInt8} (h : cookie.length < 2 ^ 16) :
    negotiateCookie cookie =
      .round (cookieFrame cookie) (.read Negotiate.frameSize (onNegotiate cookie)) :=
  if_pos h

private theorem start_negotiateCookie_of_not_lt {cookie : List UInt8}
    (h : ¬ cookie.length < 2 ^ 16) : (negotiateCookie cookie).start = ⟨[], .fail, []⟩ := by
  rw [negotiateCookie, if_neg h]
  rfl

section Cookies

variable (cookie : Bool → List UInt8)

/-- What each side takes for the rounds of two sides with cookies: one that is done has read its
own cookie. -/
def PlansCookie (P : Plan fun i => negotiateCookie (cookie i)) : Prop :=
  ∀ i, P.ends i = .done → ∃ negotiate done, ins (P.roundsOf i) = negotiate ++ cookie i ++ done ∧
    negotiate.length = Negotiate.frameSize ∧ done.length = Negotiate.frameSize

variable {cookie}

private theorem exists_round_cookie (hlt : ∀ i, (cookie i).length < 2 ^ 16) (i : Bool) :
    ∃ next, negotiateCookie (cookie i) = .round (cookieFrame (cookie i)) next ∧
      Reads next (cookieFrame (cookie !i)) (onCookie (cookie i) (cookie !i)) :=
  ⟨_, negotiateCookie_of_lt (hlt i), reads_cookieFrame (hlt !i) (cookie i)⟩

/-- The cookies are equal. -/
private theorem exists_plansCookie_of_eq (hlt : ∀ i, (cookie i).length < 2 ^ 16)
    (heq : ∀ i, cookie (!i) = cookie i) : ∃ P, PlansCookie cookie P := by
  have hround (i : Bool) := exists_round_cookie hlt i
  simp only [onCookie, if_pos (heq _)] at hround
  refine ⟨planDone.cons (fun i => cookieFrame (cookie i)) hround, fun i _ => ?_⟩
  refine ⟨(Negotiate.cookie (UInt16.ofNat (cookie i).length)).frame, Negotiate.done.frame, ?_,
    Negotiate.length_frame _, Negotiate.length_frame _⟩
  rw [Plan.ins_cons, heq, cookieFrame, ins_planDone]

/-- The cookies differ. -/
private theorem exists_plansCookie_of_ne (hlt : ∀ i, (cookie i).length < 2 ^ 16)
    (hne : ∀ i, cookie (!i) ≠ cookie i) : ∃ P, PlansCookie cookie P := by
  have hround (i : Bool) := exists_round_cookie hlt i
  simp only [onCookie, if_neg (hne _)] at hround
  refine ⟨(planFail fun _ => rfl).cons (fun i => cookieFrame (cookie i)) hround, ?_⟩
  intro i hdone
  contradiction

/-- How a side ends if a cookie is too long: one with such a cookie fails, and the other one waits
for it. -/
def endCookie (cookie : List UInt8) : End UInt8 :=
  if cookie.length < 2 ^ 16 then .blocked (cookieFrame cookie) else .fail

private theorem ends_endCookie (cookie : List UInt8) :
    Ends (negotiateCookie cookie) (endCookie cookie) := by
  rw [endCookie]
  split
  · next hlt => exact ⟨_, _, negotiateCookie_of_lt hlt⟩
  · next hlt => exact start_negotiateCookie_of_not_lt hlt

private theorem endCookie_ne_done (cookie : List UInt8) : endCookie cookie ≠ .done := by
  rw [endCookie]
  split <;> exact fun h => by contradiction

/-- A cookie that is too long. -/
private theorem exists_plansCookie_of_long (hlong : ¬ ∀ i, (cookie i).length < 2 ^ 16) :
    ∃ P, PlansCookie cookie P := by
  have hblocked (i : Bool) (out : List UInt8) (hi : endCookie (cookie i) = .blocked out) :
      endCookie (cookie !i) = .fail := by
    rw [endCookie] at hi
    split at hi
    · next hlt => exact if_neg fun hlt' => hlong (Plan.forall_bool hlt hlt')
    · contradiction
  exact ⟨.ofEnds (fun i => endCookie (cookie i)) (fun i => ends_endCookie (cookie i))
    (fun i hi => absurd hi (endCookie_ne_done _)) hblocked,
    fun i hi => absurd hi (endCookie_ne_done _)⟩

/-- Any two cookies have a plan. -/
private theorem exists_plansCookie (cookie : Bool → List UInt8) : ∃ P, PlansCookie cookie P := by
  by_cases hlt : ∀ i, (cookie i).length < 2 ^ 16
  · by_cases heq : cookie true = cookie false
    · exact exists_plansCookie_of_eq hlt (Plan.forall_bool (i := false) heq heq.symm)
    · exact exists_plansCookie_of_ne hlt (Plan.forall_bool (i := false) heq fun h => heq h.symm)
  · exact exists_plansCookie_of_long hlt

end Cookies

/-- The rounds of two sides that want the same, after the first one. -/
private theorem exists_plan_authenticate {c : Bool → AuthcConfig}
    (hcap : capabilities (c false) = capabilities (c true)) :
    ∃ P : Plan fun i => authenticate (c i), ∀ i, P.ends i = .done →
      ∀ hello : List UInt8, hello.length = headerFrameSize →
        Received (c i) (hello ++ ins (P.roundsOf i)) := by
  cases hfalse : c false with
  | trusted =>
    cases htrue : c true with
    | trusted =>
      obtain rfl : c = fun _ => .trusted := funext (Plan.forall_bool hfalse htrue)
      exact ⟨planDone, fun _ _ _ _ => trivial⟩
    | _ =>
      rw [hfalse, htrue] at hcap
      contradiction
  | cookie a =>
    cases htrue : c true with
    | cookie b =>
      obtain ⟨cookie, rfl⟩ : ∃ cookie : Bool → String, c = fun i => .cookie (cookie i) :=
        ⟨fun i => cond i b a, funext (Plan.forall_bool hfalse htrue)⟩
      obtain ⟨P, hP⟩ := exists_plansCookie fun i => asBytes (cookie i)
      refine ⟨P, fun i hi hello hlen => ?_⟩
      obtain ⟨negotiate, done, hins, hnegotiate, hdone⟩ := hP i hi
      refine ⟨hello, negotiate, done, (congrArg _ hins).trans ?_, hlen, hnegotiate, hdone⟩
      rw [List.append_assoc, List.append_assoc, List.append_assoc]
    | _ =>
      rw [hfalse, htrue] at hcap
      contradiction
  | sharedSecret a =>
    cases htrue : c true with
    | sharedSecret b =>
      have hfail : ∀ i, (authenticate (c i)).start = ⟨[], .fail, []⟩ :=
        Plan.forall_bool (i := false) (by rw [hfalse]; rfl) (by rw [Bool.not_false, htrue]; rfl)
      refine ⟨planFail hfail, fun i hdone => ?_⟩
      contradiction
    | _ =>
      rw [hfalse, htrue] at hcap
      contradiction

/-- The rounds of two sides after the first one. -/
private theorem exists_plan_authc (c : Bool → AuthcConfig) :
    ∃ P : Plan fun i => negotiateAuthc (c i) (capabilities (c !i)), ∀ i, P.ends i = .done →
      ∀ hello : List UInt8, hello.length = headerFrameSize →
        Received (c i) (hello ++ ins (P.roundsOf i)) := by
  by_cases hcap : capabilities (c false) = capabilities (c true)
  · have hsame : ∀ i, capabilities (c !i) = capabilities (c i) :=
      Plan.forall_bool (i := false) hcap.symm hcap
    have hq : (fun i => negotiateAuthc (c i) (capabilities (c !i))) =
        fun i => authenticate (c i) :=
      funext fun i => if_neg (not_not_intro (hsame i).symm)
    rw [hq]
    exact exists_plan_authenticate hcap
  · have hne : ∀ i, capabilities (c i) ≠ capabilities (c !i) :=
      Plan.forall_bool (i := false) hcap fun h => hcap h.symm
    have hfail (i : Bool) :
        (negotiateAuthc (c i) (capabilities (c !i))).start = ⟨[], .fail, []⟩ := by
      rw [negotiateAuthc, if_pos (hne i)]
      rfl
    refine ⟨planFail hfail, fun i hdone => ?_⟩
    contradiction

/-- **The rounds of two sides.** -/
theorem exists_plan (c : Bool → AuthcConfig) :
    ∃ P : Plan fun i => handshake (c i), ∀ i, P.ends i = .done →
      Received (c i) (ins (P.roundsOf i)) := by
  obtain ⟨P, hP⟩ := exists_plan_authc c
  have hround (i : Bool) : ∃ next, handshake (c i) = .round (helloFrame (c i)) next ∧
      Reads next (helloFrame (c !i)) (negotiateAuthc (c i) (capabilities (c !i))) := by
    refine ⟨_, rfl, ?_⟩
    have hreads := reads_read (k := onHello (c i)) (length_helloFrame (c !i))
    rw [onHello_helloFrame] at hreads
    exact hreads (not_isRead_negotiateAuthc _ _)
  refine ⟨P.cons (fun i => helloFrame (c i)) hround, fun i hi => ?_⟩
  rw [Plan.ins_cons]
  exact hP i hi _ (length_helloFrame _)

/-- **Where a handshake ends.** However the bytes are cut and interleaved, two sides make only so
many steps. Where they stop, both are done or neither is. A side that is done has read everything
the other one wrote and nothing else, with a cookie its own one; and the other side has not
failed. -/
theorem handshake_ends (c : Bool → AuthcConfig) :
    ∃ bound, ∀ acts s,
      exec step (fun _ _ => True) (start fun i => handshake (c i)) acts = some s →
        acts.length ≤ bound ∧
        ((∀ a, step s a = none) → (∀ i, (s i).Done) ∨ ∀ i, (s i).Failed) ∧
        ∀ i, (s i).Done → ¬ (s !i).Failed ∧ (s i).taken = (s !i).sent.length ∧
          Received (c i) ((s !i).sent.take (s i).taken) := by
  obtain ⟨P, hP⟩ := exists_plan c
  refine ⟨2 * ((P.output false).length + (P.output true).length + 1), fun acts s hrun => ?_⟩
  have hinv : P.Inv s := (reaches_of_exec hrun).invariant P.inv_start fun h _ hs => h.step hs
  refine ⟨Plan.length_le hrun hinv, hinv.ends, fun i hdone => ?_⟩
  obtain ⟨hend, hfail, hsent, htaken⟩ := hinv.of_done hdone
  refine ⟨hfail, htaken, ?_⟩
  rw [htaken, List.take_length, hsent]
  exact hP i hend

/-- A run of two sides with the same cookie of one letter. -/
def sampleHandshake : List Act :=
  [.write false 48, .write true 20, .read false 20, .write true 28, .read false 28, .read true 48,
    .write false 17, .write true 17, .read true 16, .read true 1, .read false 16, .read false 1,
    .write false 16, .write true 16, .read true 16, .read false 16]

/-- Both sides are done in the end. -/
theorem handshake_ends_same_cookie :
    ∃ s : Pair UInt8, exec step (fun _ _ => True) (start fun _ => handshake (.cookie "a"))
        sampleHandshake = some s ∧
      ∀ i, (s i).Done ∧ (s i).taken = (s !i).sent.length ∧
        Received (.cookie "a") ((s !i).sent.take (s i).taken) := by
  obtain ⟨s, hrun, hdone⟩ : ∃ s : Pair UInt8,
      exec step (fun _ _ => True) (start fun _ => handshake (.cookie "a")) sampleHandshake =
        some s ∧ ∀ i, (s i).Done :=
    ⟨_, rfl, fun i => by cases i <;> exact ⟨rfl, rfl⟩⟩
  obtain ⟨bound, hends⟩ := handshake_ends fun _ => .cookie "a"
  exact ⟨s, hrun, fun i => ⟨hdone i, ((hends _ s hrun).2.2 i (hdone i)).2⟩⟩

end Mm1
