/-
Purpose: The petter and the supervisor of a watchdog (`internal/watchdog/watchdog.go`), and when they stop.
-/
import NuraOS.Foundation.Machine

namespace NuraOS.Watchdog

/-- `SoftTries`, and whether there is a `HealthFunc`. -/
structure Config where
  softTries : Int
  monitored : Bool

/-- `DefaultSoftTries`. -/
def defaultSoftTries : Int := 3

/-- `softTries`. -/
def Config.tries (c : Config) : Int :=
  if 0 < c.softTries then c.softTries else defaultSoftTries

/-- Where `runPetter` is; between the tick and the write it reads `fd` under the lock. -/
inductive Petter where
  | selecting
  | ticked
  | writing
  | returned
deriving DecidableEq

/-- Where `runSupervisor` is; `escalating` is before its call of `StopPetting`. -/
inductive Supervisor where
  | selecting
  | checking
  | escalating
  | returned
deriving DecidableEq

/-- The channels that have been closed, the ticks that wait, and the two goroutines. -/
structure State where
  fd : Bool := true
  stop : Bool := false
  pet : Bool := false
  done : Bool := false
  petTick : Bool := false
  softTick : Bool := false
  petter : Petter := .selecting
  supervisor : Supervisor
  failures : Int := 0
  /-- What `HealthFunc` has returned, the newest first. -/
  results : List Bool := []
  /-- The bytes the petter has written since `StopPetting` returned. -/
  late : Nat := 0

/-- `Start`. -/
def Config.start (c : Config) : State :=
  { supervisor := if c.monitored then .selecting else .returned }

inductive Step where
  /-- The tickers, the context, and `Close`, which clears `fd` when both goroutines have returned. -/
  | petTick
  | softTick
  | cancel
  | close
  | clear
  | petterTick
  | petterReturn
  | read
  | write
  | supervisorTick
  | supervisorReturn
  | check (healthy : Bool)
  | stopPetting
deriving DecidableEq

def State.step (c : Config) (s : State) : Step → Option State
  | .petTick => some { s with petTick := true }
  | .softTick => some { s with softTick := true }
  | .cancel => some { s with done := true }
  | .close => if s.stop then none else some { s with stop := true }
  | .clear =>
    if s.stop ∧ s.petter = .returned ∧ s.supervisor = .returned then some { s with fd := false } else none
  -- A `select` takes any of its cases that is ready.
  | .petterTick =>
    if s.petter = .selecting ∧ s.petTick then some { s with petTick := false, petter := .ticked } else none
  | .petterReturn =>
    if s.petter = .selecting ∧ (s.done ∨ s.stop ∨ s.pet) then some { s with petter := .returned } else none
  | .read =>
    if s.petter = .ticked then some { s with petter := if s.fd then .writing else .selecting } else none
  | .write =>
    if s.petter = .writing then
      some { s with petter := .selecting, late := if s.pet then s.late + 1 else s.late }
    else none
  | .supervisorTick =>
    if s.supervisor = .selecting ∧ s.softTick then some { s with softTick := false, supervisor := .checking }
    else none
  | .supervisorReturn =>
    if s.supervisor = .selecting ∧ (s.done ∨ s.stop) then some { s with supervisor := .returned } else none
  | .check healthy =>
    if s.supervisor = .checking then
      if healthy then some { s with failures := 0, results := true :: s.results, supervisor := .selecting }
      else
        some { s with
          failures := s.failures + 1
          results := false :: s.results
          supervisor := if c.tries ≤ s.failures + 1 then .escalating else .selecting }
    else none
  | .stopPetting =>
    if s.supervisor = .escalating then some { s with pet := true, supervisor := .returned } else none

open List Foundation.Machine

/-- The checks that have failed since the start or the last success. -/
def streak (results : List Bool) : Nat :=
  (results.takeWhile (! ·)).length

/-- The supervisor is about to call `StopPetting`, or has called it. -/
def State.Escalated (s : State) : Prop :=
  s.supervisor = .escalating ∨ s.pet = true

variable {c : Config} {s next : State} {label : Step}

theorem tries_pos (c : Config) : 0 < c.tries := by
  rw [Config.tries]
  split
  · assumption
  · decide

/-- The supervisor counts the streak, and goes on only while it is short. -/
structure Counted (c : Config) (s : State) : Prop where
  failures : s.failures = streak s.results
  most : s.failures ≤ c.tries
  escalated : s.Escalated ↔ s.failures = c.tries
  called : s.pet = true → s.supervisor = .returned

theorem Counted.step (counted : Counted c s) (steps : s.step c label = some next) : Counted c next := by
  obtain ⟨failures, most, escalated, called⟩ := counted
  have positive := tries_pos c
  have failed : streak (false :: s.results) = streak s.results + 1 := by simp [streak]
  have passed : streak (true :: s.results) = 0 := rfl
  cases label <;> simp only [State.step] at steps
  all_goals
    repeat' split at steps
    all_goals cases steps
    -- Most steps touch neither the supervisor nor what it counts.
    all_goals
      first
      | exact ⟨failures, most, escalated, called⟩
      | constructor <;> grind [State.Escalated]

/-- The petter is not past a tick when `StopPetting` is called, and takes none afterwards. -/
def Prompt (s : State) (label : Step) : Prop :=
  (label = .petterTick → s.pet = false) ∧
    (label = .stopPetting → s.petter ≠ .ticked ∧ s.petter ≠ .writing)
deriving Decidable

/-- Nothing was written late, and nothing is about to be. -/
structure Quiet (s : State) : Prop where
  late : s.late = 0
  petter : s.pet = true → s.petter ≠ .ticked ∧ s.petter ≠ .writing

theorem Quiet.step (quiet : Quiet s) (prompt : Prompt s label) (steps : s.step c label = some next) :
    Quiet next := by
  obtain ⟨late, petter⟩ := quiet
  cases label <;> constructor <;> grind [State.step, Prompt]

/-- The supervisor calls `StopPetting` exactly when so many checks in a row have failed; and along every
run in which the petter is prompt, it writes nothing after that. -/
theorem escalation (c : Config) (labels : List Step) (last : State)
    (runs : run (State.step c) c.start labels = some last) :
    (last.Escalated ↔ (streak last.results : Int) = c.tries) ∧
      (Throughout (State.step c) Prompt c.start labels → last.late = 0) := by
  have counted : Counted c c.start := by
    have positive := tries_pos c
    constructor <;> grind [Config.start, State.Escalated, streak, takeWhile_nil]
  have always : Throughout (State.step c) (fun _ _ => True) c.start labels :=
    throughout_of_always (fun _ _ _ => trivial) _
  obtain ⟨failures, -, escalated, -⟩ :=
    run_invariant (fun _ _ _ counted _ steps => Counted.step counted steps) counted always runs
  refine ⟨failures ▸ escalated, fun prompt => ?_⟩
  have quiet : Quiet c.start := ⟨rfl, nofun⟩
  exact (run_invariant (fun _ _ _ quiet prompt steps => Quiet.step quiet prompt steps) quiet prompt runs).late

def twoTries : Config := { softTries := 2, monitored := true }

/-- Two failures in a row, and the call of `StopPetting`. -/
def failing : List Step :=
  [.softTick, .supervisorTick, .check false, .softTick, .supervisorTick, .check false, .stopPetting]

theorem escalation_prompt :
    ∃ last, run (State.step twoTries) twoTries.start (failing ++ [.petterReturn]) = some last ∧
      last.Escalated ∧ last.late = 0 := by
  have found : ((run (State.step twoTries) twoTries.start (failing ++ [.petterReturn])).any fun last =>
    (streak last.results : Int) = twoTries.tries) = true := by decide
  obtain ⟨last, runs, two⟩ := exists_run found
  obtain ⟨escalated, quiet⟩ := escalation twoTries _ last runs
  exact ⟨last, runs, escalated.mpr two, quiet (by decide)⟩

/-- The petter finds both its tick and the closed channel, and takes the tick. -/
theorem late_write :
    ((run (State.step twoTries) twoTries.start failing).map fun s => (s.pet, s.late)) = some (true, 0) ∧
      ((run (State.step twoTries) twoTries.start (failing ++ [.petTick, .petterTick, .read, .write])).map
        State.late) = some 1 := by
  decide

end NuraOS.Watchdog
