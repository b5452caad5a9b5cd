/-
Purpose: The circuit breaker of a provider: when it changes its state, and what a look at it changes.
-/
import NuraOS.Foundation.Machine

namespace NuraOS.CircuitBreaker

inductive State where
  | closed
  | opened
  | halfOpen
  deriving DecidableEq

structure Config where
  FailThreshold : Int
  RecoverThreshold : Int
  /-- Nanoseconds, as every time here. -/
  OpenDuration : Int

def Config.failThreshold (c : Config) : Nat :=
  if 0 < c.FailThreshold then c.FailThreshold.toNat else 3

def Config.recoverThreshold (c : Config) : Nat :=
  if 0 < c.RecoverThreshold then c.RecoverThreshold.toNat else 2

def Config.openDuration (c : Config) : Int :=
  if 0 < c.OpenDuration then c.OpenDuration else 30000000000

structure Breaker where
  state : State
  failCount : Nat
  successCount : Nat
  openedAt : Int
  probeSuccesses : Nat
  probeFailures : Nat

def new : Breaker := ⟨.closed, 0, 0, 0, 0, 0⟩

namespace Breaker

variable (cfg : Config) (b : Breaker) (now : Int)

@[grind] def maybeTransitionToHalfOpen : Breaker :=
  if b.state = .opened ∧ cfg.openDuration ≤ now - b.openedAt then
    { b with state := .halfOpen, successCount := 0 }
  else b

/-- `State`. -/
@[grind] def current : State × Breaker :=
  let b := b.maybeTransitionToHalfOpen cfg now
  (b.state, b)

@[grind] def allow : Bool × Breaker :=
  let b := b.maybeTransitionToHalfOpen cfg now
  (b.state != .opened, b)

/-- A result in the state `opened` is only counted. -/
@[grind] def record (success : Bool) : Breaker :=
  if success then
    let b := { b with probeSuccesses := b.probeSuccesses + 1 }
    match b.state with
    | .closed => { b with failCount := 0 }
    | .halfOpen =>
      let b := { b with successCount := b.successCount + 1 }
      if cfg.recoverThreshold ≤ b.successCount then
        { b with state := .closed, failCount := 0, successCount := 0 }
      else b
    | .opened => b
  else
    let b := { b with probeFailures := b.probeFailures + 1 }
    match b.state with
    | .closed =>
      let b := { b with failCount := b.failCount + 1 }
      if cfg.failThreshold ≤ b.failCount then
        { b with openedAt := now, state := .opened, failCount := 0 }
      else b
    | .halfOpen => { b with openedAt := now, state := .opened, successCount := 0 }
    | .opened => b

/-- `ShouldFallback` of the manager, for the breaker of its entry. -/
@[grind] def shouldFallback : Bool × Breaker :=
  let asked := b.allow cfg now
  (!asked.1, asked.2)

structure Status where
  circuitState : State
  reachable : Bool
  probeSuccesses : Nat
  probeFailures : Nat
  shouldFallback : Bool

/-- What `Snapshot` of the manager asks of each breaker. -/
@[grind] def snapshot : Status × Breaker :=
  let st := b.current cfg now
  let asked := st.2.allow cfg now
  (⟨st.1, st.1 != .opened, st.2.probeSuccesses, st.2.probeFailures, !asked.1⟩, asked.2)

end Breaker

@[grind cases]
inductive Call where
  | record (success : Bool)
  | state
  | allow
  | shouldFallback
  | snapshot
  deriving DecidableEq

@[grind] def Breaker.call (cfg : Config) (b : Breaker) (now : Int) : Call → Breaker
  | .record success => b.record cfg now success
  | .state => (b.current cfg now).2
  | .allow => (b.allow cfg now).2
  | .shouldFallback => (b.shouldFallback cfg now).2
  | .snapshot => (b.snapshot cfg now).2

/-- The breaker after timed calls. -/
def run (cfg : Config) (calls : List (Int × Call)) : Breaker :=
  calls.foldl (fun b timed => b.call cfg timed.1 timed.2) new

open Foundation.Stays List

abbrev History := List (Int × Call)

@[grind] def Call.outcome : Call → Option Bool
  | .record success => some success
  | _ => none

@[grind] def In (cfg : Config) (state : State) (calls : History) : Prop :=
  (run cfg calls).state = state

/-- The last `k` results came while the breaker was in a state, and were all `wanted`. -/
abbrev Recorded (cfg : Config) (state : State) (wanted : Bool) (k : Nat) (calls : History) : Prop :=
  Streak (In cfg state) (fun timed => timed.2.outcome) wanted k calls

/-- The breaker is open since this time. -/
abbrev OpenSince (cfg : Config) (time : Int) (calls : History) : Prop :=
  Entered (In cfg .opened) Prod.fst time calls

/-- What the next call may do. -/
structure Lawful (cfg : Config) (calls : History) (next : Int × Call) : Prop where
  trips : In cfg .closed calls → (In cfg .opened (calls ++ [next]) ↔
    next.2 = .record false ∧ Recorded cfg .closed false (cfg.failThreshold - 1) calls)
  cools : In cfg .opened calls → ¬ In cfg .opened (calls ++ [next]) →
    In cfg .halfOpen (calls ++ [next]) ∧
      ∃ time, OpenSince cfg time calls ∧ cfg.openDuration ≤ next.1 - time
  recovers : In cfg .halfOpen calls → (In cfg .closed (calls ++ [next]) ↔
    next.2 = .record true ∧ Recorded cfg .halfOpen true (cfg.recoverThreshold - 1) calls)
  relapses : In cfg .halfOpen calls → (In cfg .opened (calls ++ [next]) ↔ next.2 = .record false)
  allows : ((run cfg calls).allow cfg next.1).1 = false ↔
    ∃ time, OpenSince cfg time calls ∧ next.1 - time < cfg.openDuration

variable (cfg : Config) (calls : History)

@[grind =] theorem run_concat (next : Int × Call) :
    run cfg (calls ++ [next]) = (run cfg calls).call cfg next.1 next.2 := by
  simp [run]

theorem counts_failures : Counts (In cfg .closed) (fun timed => timed.2.outcome) false
    fun calls => (run cfg calls).failCount where
  start := rfl
  enters := by grind
  stays := by grind

theorem counts_successes : Counts (In cfg .halfOpen) (fun timed => timed.2.outcome) true
    fun calls => (run cfg calls).successCount where
  start := rfl
  enters := by grind
  stays := by grind

theorem openSince_iff {time : Int} :
    OpenSince cfg time calls ↔ In cfg .opened calls ∧ (run cfg calls).openedAt = time :=
  entered_iff (fun calls => (run cfg calls).openedAt) State.noConfusion (by grind) (by grind)

theorem counters_lt : (run cfg calls).failCount < cfg.failThreshold ∧
    (run cfg calls).successCount < cfg.recoverThreshold := by
  induction calls using reverseRecOn with
  | nil => grind [run, new, Config.failThreshold, Config.recoverThreshold]
  | append_singleton calls next ih => grind

/-- The breaker trips, cools down, recovers and relapses as its history says, and refuses requests
exactly during the cooldown. -/
theorem run_lawful (next : Int × Call) : Lawful cfg calls next := by
  have below := counters_lt cfg calls
  constructor
  · intro closed
    rw [Recorded, (counts_failures cfg).streak_iff closed below.1]
    grind
  · intro opened leaves
    have since := (openSince_iff cfg calls).mpr ⟨opened, rfl⟩
    grind
  · intro halfOpen
    rw [Recorded, (counts_successes cfg).streak_iff halfOpen below.2]
    grind
  · grind
  · simp only [openSince_iff]
    grind

def records (calls : History) : History :=
  calls.filter fun timed => timed.2.outcome.isSome

/-- Each result comes before the cooldown is over, or after somebody has seen that it is. -/
def Attended : Prop :=
  ∀ before now success after, calls = before ++ (now, .record success) :: after →
    ¬ ((run cfg before).state = .opened ∧ cfg.openDuration ≤ now - (run cfg before).openedAt)

variable {calls} {b : Breaker} {now : Int}

/-- A breaker that looks at the clock before it records. -/
def eager (records : History) : Breaker :=
  records.foldl (fun b timed => (b.maybeTransitionToHalfOpen cfg timed.1).call cfg timed.1 timed.2) new

variable {cfg}

theorem settle_settle {later : Int} (passes : now ≤ later) :
    (b.maybeTransitionToHalfOpen cfg now).maybeTransitionToHalfOpen cfg later =
      b.maybeTransitionToHalfOpen cfg later := by
  grind

/-- An attended breaker is the eager one, but for a last look at the clock. -/
theorem settle_run (ordered : (calls.map Prod.fst ++ [now]).Pairwise (· ≤ ·))
    (attended : Attended cfg calls) :
    (run cfg calls).maybeTransitionToHalfOpen cfg now =
      (eager cfg (records calls)).maybeTransitionToHalfOpen cfg now := by
  induction calls using reverseRecOn generalizing now with
  | nil => rfl
  | append_singleton calls next ih =>
    rw [map_append] at ordered
    have passes : next.1 ≤ now := (pairwise_append.mp ordered).2.2 _ (by simp) now (by simp)
    have same := ih (pairwise_append.mp ordered).1 fun before now success after split =>
      attended before now success (after ++ [next]) (by simp [split])
    obtain ⟨time, call⟩ := next
    rw [run_concat]
    cases outcome : call.outcome with
    | none =>
      have looks : (run cfg calls).call cfg time call =
          (run cfg calls).maybeTransitionToHalfOpen cfg time := by
        grind
      rw [looks, same, settle_settle passes]
      simp [records, outcome]
    | some success =>
      have isRecord : call = .record success := by grind
      have settled : (run cfg calls).maybeTransitionToHalfOpen cfg time = run cfg calls :=
        if_neg (attended calls time success [] (by rw [isRecord]))
      simp only [settled, eager] at same
      simp [eager, records, outcome, same]

/-- Additional looks at an attended breaker change no later answer. -/
theorem answers_eq (cfg : Config) (first second : History) (now : Int)
    (sameRecords : records first = records second)
    (ordered : ∀ calls ∈ [first, second], (calls.map Prod.fst ++ [now]).Pairwise (· ≤ ·))
    (attended : ∀ calls ∈ [first, second], Attended cfg calls) :
    ((run cfg first).current cfg now).1 = ((run cfg second).current cfg now).1 ∧
      ((run cfg first).allow cfg now).1 = ((run cfg second).allow cfg now).1 := by
  have settled := fun calls member => settle_run (ordered calls member) (attended calls member)
  have same := settled second (by simp)
  rw [← sameRecords, ← settled first (by simp)] at same
  simp [Breaker.current, Breaker.allow, same]

/-- A look during the cooldown. -/
theorem answers_eq_cooling :
    ((run ⟨1, 1, 30⟩ [(0, .record false)]).current ⟨1, 1, 30⟩ 20).1 =
      ((run ⟨1, 1, 30⟩ [(0, .record false), (10, .snapshot)]).current ⟨1, 1, 30⟩ 20).1 := by
  refine (answers_eq ⟨1, 1, 30⟩ _ _ 20 (by decide) (by decide) ?_).1
  simp only [mem_cons, not_mem_nil, or_false, forall_eq_or_imp, forall_eq]
  constructor
  all_goals
    rintro (_ | ⟨_, _ | _⟩) now success after split
    all_goals simp_all [run, new]

/-- One failure opens this breaker for 30 ns. The success recorded then closes it only if somebody has
looked before. -/
theorem unattended_answers_ne :
    records [(0, .record false), (30, .record true)] =
        records [(0, .record false), (30, .state), (30, .record true)] ∧
      ((run ⟨1, 1, 30⟩ [(0, .record false), (30, .record true)]).current ⟨1, 1, 30⟩ 30).1 ≠
        ((run ⟨1, 1, 30⟩ [(0, .record false), (30, .state), (30, .record true)]).current
          ⟨1, 1, 30⟩ 30).1 := by
  decide

/-! ### The health manager -/

structure Entry where
  name : String
  cfg : Config
  breaker : Breaker

def Entry.after (entry : Entry) (history : History) : Entry :=
  { entry with breaker := history.foldl (fun b timed => b.call entry.cfg timed.1 timed.2) entry.breaker }

namespace Manager

/-- The manager once these providers were added; `Add` appends. -/
def start (providers : List (String × Config)) : List Entry :=
  providers.map fun provider => ⟨provider.1, provider.2, new⟩

/-- `ShouldFallback` asks the first entry with the name. -/
def onFirst (name : String) (history : History) : List Entry → List Entry
  | [] => []
  | entry :: entries =>
    if entry.name = name then entry.after history :: entries else entry :: onFirst name history entries

/-- `byName` leads to the last entry with the name. -/
def onLast (name : String) (history : History) : List Entry → List Entry
  | [] => []
  | entry :: entries =>
    if entry.name = name ∧ ∀ later ∈ entries, later.name ≠ name then entry.after history :: entries
    else entry :: onLast name history entries

/-- A result that `Run` receives, with the time at which a failure is logged, and the questions of others. -/
inductive Request where
  | result (name : String) (success : Bool) (logged : Int)
  | shouldFallback (name : String)
  | snapshot

/-- The calls that a request makes on the breaker it is for. -/
def Request.history (now : Int) : Request → History
  | .result _ success logged => (now, .record success) :: if success then [] else [(logged, .state)]
  | .shouldFallback _ => [(now, .shouldFallback)]
  | .snapshot => [(now, .snapshot)]

def serve (entries : List Entry) (timed : Int × Request) : List Entry :=
  let history := timed.2.history timed.1
  match timed.2 with
  | .result name _ _ => onLast name history entries
  | .shouldFallback name => onFirst name history entries
  | .snapshot => entries.map (·.after history)

def shouldFallback (entries : List Entry) (name : String) (now : Int) : Bool :=
  match entries.find? (·.name = name) with
  | some entry => (entry.breaker.shouldFallback entry.cfg now).1
  | none => false

/-- What the breaker of a provider sees of a request. -/
def seen (name : String) (timed : Int × Request) : History :=
  match timed.2 with
  | .result other _ _ | .shouldFallback other => if other = name then timed.2.history timed.1 else []
  | .snapshot => timed.2.history timed.1

variable {entries : List Entry} {name : String} {history : History}

theorem update_eq (distinct : (entries.map Entry.name).Nodup) :
    let updated := entries.map fun entry => entry.after (if name = entry.name then history else [])
    onFirst name history entries = updated ∧ onLast name history entries = updated := by
  induction entries with
  | nil => exact ⟨rfl, rfl⟩
  | cons entry entries ih =>
    obtain ⟨absent, rest⟩ := nodup_cons.mp distinct
    by_cases same : entry.name = name
    · have others : ∀ other ∈ entries, other.name ≠ name := fun other member also =>
        absent (mem_map.mpr ⟨other, member, also.trans same.symm⟩)
      have kept : entries.map (fun other => other.after (if name = other.name then history else [])) = entries :=
        (map_congr_left fun other member => by rw [if_neg (others other member).symm]; rfl).trans (map_id _)
      rw [onFirst, onLast, map_cons, kept, if_pos same.symm, if_pos same, if_pos (And.intro same others)]
      exact ⟨rfl, rfl⟩
    · simp only [onFirst, onLast, map_cons, same, Ne.symm same, false_and, if_false, (ih rest).1, (ih rest).2]
      exact ⟨rfl, rfl⟩

theorem serve_eq (distinct : (entries.map Entry.name).Nodup) (timed : Int × Request) :
    serve entries timed = entries.map fun entry => entry.after (seen entry.name timed) := by
  obtain ⟨now, request⟩ := timed
  cases request with
  | result name success logged => exact (update_eq distinct).2
  | shouldFallback name => exact (update_eq distinct).1
  | snapshot => rfl

theorem foldl_serve (distinct : (entries.map Entry.name).Nodup) (requests : List (Int × Request)) :
    requests.foldl serve entries = entries.map fun entry => entry.after (requests.flatMap (seen entry.name)) := by
  induction requests generalizing entries with
  | nil => exact (map_id _).symm
  | cons timed requests ih =>
    rw [foldl_cons, serve_eq distinct, ih (by simpa [Function.comp_def, Entry.after] using distinct), map_map]
    simp [Function.comp_def, Entry.after]

/-- However the results and questions of providers mix, each breaker is as if it were alone. -/
theorem breakers_independent (providers : List (String × Config)) (requests : List (Int × Request))
    (distinct : (providers.map Prod.fst).Nodup) :
    requests.foldl serve (start providers) =
      providers.map fun provider => ⟨provider.1, provider.2, run provider.2 (requests.flatMap (seen provider.1))⟩ := by
  rw [foldl_serve (by simpa [start, Function.comp_def] using distinct), start, map_map]
  rfl

theorem breakers_independent_two :
    let requests := [(0, .result "openai" false 1), (2, .result "local" true 0), (3, .snapshot)]
    requests.foldl serve (start [("openai", ⟨1, 1, 30⟩), ("local", ⟨1, 1, 30⟩)]) =
      [⟨"openai", ⟨1, 1, 30⟩, run ⟨1, 1, 30⟩ [(0, .record false), (1, .state), (3, .snapshot)]⟩,
        ⟨"local", ⟨1, 1, 30⟩, run ⟨1, 1, 30⟩ [(2, .record true), (3, .snapshot)]⟩] :=
  breakers_independent [("openai", ⟨1, 1, 30⟩), ("local", ⟨1, 1, 30⟩)] _ (by decide)

/-- The results of a provider added twice go to its second breaker, questions to the first. -/
example : shouldFallback ([(0, .result "openai" false 1)].foldl serve
    (start [("openai", ⟨1, 1, 30⟩), ("openai", ⟨1, 1, 30⟩)])) "openai" 2 = false := by
  decide

end Manager

end NuraOS.CircuitBreaker
