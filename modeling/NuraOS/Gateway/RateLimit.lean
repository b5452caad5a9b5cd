/-
Purpose: The rate limiter of the HTTP gateway (`cmd/gateway/ratelimit.go`), and how much it lets through.
Trusted boundary: The clock does not run backwards and time is exact; Go keeps both times and tokens with a
  precision of its own.
-/
import Mathlib.Data.Rat.Floor
import NuraOS.Foundation.Text
import NuraOS.Foundation.TokenBucket

namespace NuraOS.Gateway

open Foundation
open Foundation.TokenBucket (Bucket draw sweep)

def validHeaderFieldByte (byte : UInt8) : Bool :=
  (48 ≤ byte && byte ≤ 57) || (65 ≤ byte && byte ≤ 90) || (97 ≤ byte && byte ≤ 122) ||
    (utf8 "!#$%&'*+-.^_|~").contains byte || byte == 0x60

/-- The name of a header field with each word capitalised, from a place where a word begins or not. -/
def capitalise : Bool → Bytes → Bytes
  | _, [] => []
  | upper, byte :: rest =>
    let spelled :=
      if upper && (97 ≤ byte && byte ≤ 122) then byte - 32
      else if !upper && (65 ≤ byte && byte ≤ 90) then byte + 32
      else byte
    spelled :: capitalise (spelled == 45) rest

/-- `textproto.CanonicalMIMEHeaderKey`: a name that is no header field name stays as it is. -/
def canonicalMIMEHeaderKey (name : Bytes) : Bytes :=
  if name.all validHeaderFieldByte then capitalise true name else name

structure Request where
  path : Bytes
  /-- The header fields in the order received, under the names the client gave. -/
  header : List (Bytes × Bytes)
  /-- Address and port of the peer, as the server fills them in. -/
  remoteAddr : Bytes

/-- `r.Header.Get`: the first value under the name, and nothing when there is none. -/
def Request.headerGet (request : Request) (name : Bytes) : Bytes :=
  (request.header.find? fun entry =>
    canonicalMIMEHeaderKey entry.1 == canonicalMIMEHeaderKey name).elim [] Prod.snd

/-- `strings.LastIndex` for a separator of one byte. -/
def lastIndex (separator : UInt8) : Bytes → Option Nat
  | [] => none
  | byte :: rest =>
    match lastIndex separator rest with
    | some index => some (index + 1)
    | none => if byte = separator then some 0 else none

def colon : UInt8 := 58

/-- The originating address: what a proxy put in `X-Real-IP`, else the peer without its port. -/
def clientIP (request : Request) : Bytes :=
  let ip := request.headerGet (utf8 "X-Real-IP")
  if ip ≠ [] then ip
  else
    match lastIndex colon request.remoteAddr with
    | some index => if 0 < index then request.remoteAddr.take index else request.remoteAddr
    | none => request.remoteAddr

def defaultRPS : ℚ := 1

def defaultBurst : ℚ := 10

def staleDuration : ℚ := 300

structure RateLimiter where
  buckets : Bytes → Option (Bucket ℚ)
  rps : ℚ
  burst : ℚ

def newRateLimiter (rps burst : ℚ) : RateLimiter where
  buckets _ := none
  rps := rps
  burst := burst

/-- Whether the address is within its limit; if so one of its tokens is consumed. -/
def RateLimiter.allow (rl : RateLimiter) (now : ℚ) (ip : Bytes) : Bool × RateLimiter :=
  let drawn := draw rl.rps rl.burst now (rl.buckets ip)
  (drawn.1, { rl with buckets := Function.update rl.buckets ip (some drawn.2) })

/-- One tick of `periodicCleanup`: buckets not seen since the cutoff are deleted. -/
def RateLimiter.cleanup (rl : RateLimiter) (now : ℚ) : RateLimiter :=
  { rl with buckets := fun ip => sweep staleDuration now (rl.buckets ip) }

structure Refusal where
  status : Nat
  retryAfter : String
  error : String
deriving DecidableEq

/-- What becomes of a request: it is handed to the next handler, or it is refused. -/
inductive Outcome where
  | next
  | refused (refusal : Refusal)
deriving DecidableEq

/-- The limiter and the counter of `MetricsStore` that the middleware moves. -/
structure State where
  limiter : RateLimiter
  rateLimited : Nat

def healthz : Bytes := utf8 "/healthz"

def rateLimitMiddleware (state : State) (now : ℚ) (request : Request) : Outcome × State :=
  if request.path = healthz then
    (.next, state)
  else
    let allowed := state.limiter.allow now (clientIP request)
    if allowed.1 then
      (.next, { state with limiter := allowed.2 })
    else
      (.refused ⟨429, "1", "rate limit exceeded"⟩,
        { limiter := allowed.2, rateLimited := state.rateLimited + 1 })

inductive Event where
  | request (now : ℚ) (request : Request)
  | cleanup (now : ℚ)

def Event.time : Event → ℚ
  | .request now _ | .cleanup now => now

def passed : State → List Event → List (ℚ × Request)
  | _, [] => []
  | state, .request now request :: events =>
    let served := rateLimitMiddleware state now request
    (if served.1 = .next then [(now, request)] else []) ++ passed served.2 events
  | state, .cleanup now :: events => passed { state with limiter := state.limiter.cleanup now } events

def start (rps burst : ℚ) : State where
  limiter := newRateLimiter rps burst
  rateLimited := 0

def passedWithin (state : State) (events : List Event) (first last : ℚ) : List (ℚ × Request) :=
  (passed state events).filter fun entry =>
    entry.2.path ≠ healthz ∧ first ≤ entry.1 ∧ entry.1 ≤ last

open Foundation.TokenBucket (Act grants)
open List

inductive Call where
  | allow (now : ℚ) (ip : Bytes)
  /-- A tick of `periodicCleanup`. -/
  | cleanup (now : ℚ)

def Call.time : Call → ℚ
  | .allow now _ | .cleanup now => now

/-- The calls of `allow` that return true. -/
def allowed : RateLimiter → List Call → List (ℚ × Bytes)
  | _, [] => []
  | rl, .allow now ip :: calls =>
    let answer := rl.allow now ip
    (if answer.1 then [(now, ip)] else []) ++ allowed answer.2 calls
  | rl, .cleanup now :: calls => allowed (rl.cleanup now) calls

def allowedWithin (rl : RateLimiter) (calls : List Call) (key : Bytes) (first last : ℚ) :
    List (ℚ × Bytes) :=
  (allowed rl calls).filter fun entry => entry.2 = key ∧ first ≤ entry.1 ∧ entry.1 ≤ last

/-- What a call does to the bucket of a key. -/
def Call.act (key : Bytes) : Call → Option (Act ℚ)
  | .allow now ip => if ip = key then some (.draw now) else none
  | .cleanup now => some (.sweep now)

variable {calls : List Call} (key : Bytes)

theorem allowed_eq_grants (rl : RateLimiter) :
    ((allowed rl calls).filter (·.2 = key)).map Prod.fst =
      grants rl.rps rl.burst staleDuration (rl.buckets key) (calls.filterMap (Call.act key)) := by
  induction calls generalizing rl with
  | nil => rfl
  | cons call calls ih =>
    cases call with
    | allow now ip =>
      rw [allowed, filter_append, map_append, ih]
      simp only [RateLimiter.allow]
      by_cases drawn : (TokenBucket.draw rl.rps rl.burst now (rl.buckets ip)).1
      all_goals
        by_cases same : ip = key
        · subst same
          simp [Call.act, grants, drawn]
        · simp [Call.act, Function.update_of_ne (Ne.symm same), same, drawn]
    | cleanup now =>
      have sweeps : Call.act key (.cleanup now) = some (.sweep now) := rfl
      rw [filterMap_cons_some sweeps, allowed, ih]
      rfl

theorem length_allowedWithin (rl : RateLimiter) (first last : ℚ) :
    (allowedWithin rl calls key first last).length =
      ((((allowed rl calls).filter (·.2 = key)).map Prod.fst).filter
        fun time => first ≤ time ∧ time ≤ last).length := by
  rw [filter_map, length_map, filter_filter, allowedWithin]
  congr 1
  apply filter_congr
  simp [Bool.and_comm]

theorem pairwise_act (ordered : calls.Pairwise fun earlier later => earlier.time ≤ later.time) :
    (calls.filterMap (Call.act key)).Pairwise fun earlier later => earlier.time ≤ later.time := by
  have time : ∀ call act, Call.act key call = some act → act.time = call.time := by
    rintro (⟨now, ip⟩ | now) act acts
    · obtain ⟨-, ⟨⟩⟩ := Option.ite_none_right_eq_some.mp acts
      rfl
    · cases acts
      rfl
  rw [pairwise_filterMap]
  refine ordered.imp fun before earlier acts later follows => ?_
  rw [time _ _ acts, time _ _ follows]
  exact before

variable {rps burst : ℚ} (one : 1 ≤ burst) (fills : burst ≤ rps * staleDuration)
  (ordered : calls.Pairwise fun earlier later => earlier.time ≤ later.time)

include one fills ordered

theorem length_allowedWithin_le (first : ℚ) {length : ℚ} (forward : 0 ≤ length) :
    ((allowedWithin (newRateLimiter rps burst) calls key first (first + length)).length : ℚ) ≤
      burst + rps * length := by
  have flows : 0 ≤ rps := by
    unfold staleDuration at fills
    linarith
  have bound := TokenBucket.length_grants_within flows one fills
    (fun act _ => TokenBucket.sound_none act.time) (pairwise_act key ordered)
    (le_add_of_nonneg_right forward : first ≤ first + length)
  rw [add_sub_cancel_left, mul_comm] at bound
  rw [length_allowedWithin, allowed_eq_grants]
  exact bound

omit one fills ordered

/-- In every interval no more calls with one key return true than the burst and what the rate allows. -/
def Bounded (rps burst : ℚ) (calls : List Call) : Prop :=
  ∀ (key : Bytes) (first length : ℚ), 0 ≤ length →
    ((allowedWithin (newRateLimiter rps burst) calls key first (first + length)).length : ℚ) ≤
      burst + rps * length

/-- The bound holds when a bucket that the cleanup may delete is full again. -/
theorem allow_bounded {rps burst : ℚ} (one : 1 ≤ burst) (fills : burst ≤ rps * staleDuration)
    {calls : List Call} (ordered : calls.Pairwise fun earlier later => earlier.time ≤ later.time) :
    Bounded rps burst calls :=
  fun key first _ forward => length_allowedWithin_le key one fills ordered first forward

theorem allow_bounded_defaults :
    Bounded defaultRPS defaultBurst [.allow 0 [], .cleanup 301, .allow 301 [], .allow 302 [1]] :=
  allow_bounded (by decide +kernel) (by decide +kernel) (by decide +kernel)

/-- A client with one token in a thousand seconds has its second call allowed after 301 seconds. -/
theorem forgotten_bucket_not_bounded :
    ¬Bounded (1 / 1000) 1 [.allow 0 [], .cleanup 301, .allow 301 []] := by
  intro bounded
  have bound := bounded [] 0 301 (by decide +kernel)
  revert bound
  decide +kernel

/-- The request comes over a connection from the peer, from whatever port of it. -/
def FromPeer (host : Bytes) (request : Request) : Prop :=
  ∃ port, colon ∉ port ∧ request.remoteAddr = host ++ colon :: port

/-! ### One address, one bucket -/

/-- The call that an event makes. -/
def toCall : Event → Option Call
  | .request now request =>
    if request.path = healthz then none else some (.allow now (clientIP request))
  | .cleanup now => some (.cleanup now)

variable {event : Event} {ip : Bytes} {events : List Event}

def CountedUnder (ip : Bytes) (events : List Event) : Prop :=
  ∀ now request, Event.request now request ∈ events → request.path ≠ healthz → clientIP request = ip

theorem CountedUnder.tail (counted : CountedUnder ip (event :: events)) : CountedUnder ip events :=
  fun now request member => counted now request (mem_cons_of_mem _ member)

theorem rateLimitMiddleware_of_ne (state : State) (now : ℚ) {request : Request}
    (other : request.path ≠ healthz) :
    ((rateLimitMiddleware state now request).1 = .next ↔
        (state.limiter.allow now (clientIP request)).1) ∧
      (rateLimitMiddleware state now request).2.limiter =
        (state.limiter.allow now (clientIP request)).2 := by
  cases allowed : (state.limiter.allow now (clientIP request)).1 <;>
    simp [rateLimitMiddleware, other, allowed]

theorem passed_eq_allowed (counted : CountedUnder ip events) (state : State) :
    ((passed state events).filter fun entry => entry.2.path ≠ healthz).map Prod.fst =
      ((allowed state.limiter (events.filterMap toCall)).filter (·.2 = ip)).map Prod.fst := by
  induction events generalizing state with
  | nil => rfl
  | cons event events ih =>
    have rest := ih counted.tail
    cases event with
    | request now request =>
      by_cases health : request.path = healthz
      · have quiet : toCall (.request now request) = none := if_pos health
        rw [filterMap_cons_none quiet, ← rest]
        simp [passed, rateLimitMiddleware, health]
      · have asks : toCall (.request now request) = some (.allow now (clientIP request)) :=
          if_neg health
        obtain ⟨passes, limiter⟩ := rateLimitMiddleware_of_ne state now health
        rw [filterMap_cons_some asks, allowed, passed, filter_append, map_append, rest, limiter,
          filter_append, map_append, counted now request mem_cons_self health]
        congr 1
        rw [counted now request mem_cons_self health] at passes
        simp only [passes]
        split <;> simp [health]
    | cleanup now =>
      have cleans : toCall (.cleanup now) = some (.cleanup now) := rfl
      rw [filterMap_cons_some cleans, passed, rest]
      rfl

theorem length_passedWithin (counted : CountedUnder ip events) (state : State) (first last : ℚ) :
    (passedWithin state events first last).length =
      (allowedWithin state.limiter (events.filterMap toCall) ip first last).length := by
  rw [length_allowedWithin, ← passed_eq_allowed counted state, filter_map, length_map, filter_filter]
  congr 1
  apply filter_congr
  simp [Bool.and_comm]

theorem pairwise_call (ordered : events.Pairwise fun earlier later => earlier.time ≤ later.time) :
    (events.filterMap toCall).Pairwise fun earlier later => earlier.time ≤ later.time := by
  have time : ∀ event call, toCall event = some call → call.time = event.time := by
    rintro (⟨now, request⟩ | now) call calls
    · obtain ⟨-, ⟨⟩⟩ := Option.ite_none_left_eq_some.mp calls
      rfl
    · cases calls
      rfl
  rw [pairwise_filterMap]
  refine ordered.imp fun before earlier calls later follows => ?_
  rw [time _ _ calls, time _ _ follows]
  exact before

/-- When all requests of a run are counted under one address, the requests other than health checks that
pass in an interval are no more than the burst and what the rate allows meanwhile. -/
theorem passedWithin_le {rps burst : ℚ} (one : 1 ≤ burst) (fills : burst ≤ rps * staleDuration)
    {ip : Bytes} {events : List Event} (counted : CountedUnder ip events)
    (ordered : events.Pairwise fun earlier later => earlier.time ≤ later.time)
    (first : ℚ) {length : ℚ} (forward : 0 ≤ length) :
    ((passedWithin (start rps burst) events first (first + length)).length : ℚ) ≤
      burst + rps * length := by
  rw [length_passedWithin counted]
  exact length_allowedWithin_le ip one fills (pairwise_call ordered) first forward

/-- Two requests and a health check from two ports of one peer, a cleanup in between. -/
def plainRun : List Event :=
  [.request 0 ⟨utf8 "/chat", [], utf8 "10.0.2.9:5000"⟩,
    .cleanup 300,
    .request 301 ⟨utf8 "/healthz", [], utf8 "10.0.2.9:5001"⟩,
    .request 301 ⟨utf8 "/chat", [], utf8 "10.0.2.9:5001"⟩]

theorem passedWithin_le_plainRun :
    ((passedWithin (start defaultRPS defaultBurst) plainRun 0 (0 + 301)).length : ℚ) ≤
      defaultBurst + defaultRPS * 301 := by
  have counted : CountedUnder (utf8 "10.0.2.9") plainRun := by
    intro now request member other
    simp only [plainRun, mem_cons, Event.request.injEq, reduceCtorEq, not_mem_nil,
      or_false, false_or] at member
    rcases member with ⟨-, rfl⟩ | ⟨-, rfl⟩ | ⟨-, rfl⟩
    · decide
    · exact absurd rfl other
    · decide
  exact passedWithin_le (by decide +kernel) (by decide +kernel) counted (by decide +kernel) 0
    (by decide +kernel)

/-- Eleven requests of one peer at one moment, each with another address in the header. -/
def forgedRun : List Event :=
  (List.range 11).map fun turn =>
    .request 0 ⟨utf8 "/chat", [(utf8 "X-Real-IP", [UInt8.ofNat (48 + turn)])], utf8 "10.0.2.9:5000"⟩

theorem passedWithin_forgedRun :
    (∀ now request, Event.request now request ∈ forgedRun → FromPeer (utf8 "10.0.2.9") request) ∧
      (forgedRun.Pairwise fun earlier later => earlier.time ≤ later.time) ∧
      ¬ ((passedWithin (start defaultRPS defaultBurst) forgedRun 0 (0 + 0)).length : ℚ) ≤
        defaultBurst + defaultRPS * 0 := by
  refine ⟨?_, by decide +kernel, by decide +kernel⟩
  intro now request member
  obtain ⟨turn, -, same⟩ := mem_map.mp member
  cases same
  exact ⟨utf8 "5000", by decide, rfl⟩

end NuraOS.Gateway
