/-
Purpose: The states of a service, `StartPlan`, `waitReady`, the shutdown sequence, one launched unit as a machine
  (supervisor, child, listener and any number of calls of `StopService`, in any order), and socket activation
  (`internal/lifecycle/`, `internal/sockact/`, `subcmd/run.go`).
Trusted boundary: `memory.events` comes as keys with numbers; after a read error a goroutine polls on.
-/
import Mathlib.Algebra.Ring.Nat
import NuraOS.Foundation.Machine
import NuraOS.Foundation.Text
import NuraOS.Services.Resolver

namespace NuraOS.Lifecycle

/-- `State`, a service's lifecycle position. -/
inductive State where
  | inactive
  | starting
  | ready
  | running
  | stopping
  | failed
deriving DecidableEq

/-- The table of `validTransition`. -/
def allowed : State → List State
  | .inactive => [.starting]
  | .starting => [.ready, .failed, .stopping]
  | .ready => [.running, .stopping, .failed]
  | .running => [.stopping, .failed, .starting]
  | .stopping => [.inactive, .failed]
  | .failed => [.starting]

/-- `validTransition`. -/
def validTransition (src dst : State) : Bool :=
  (allowed src).contains dst

/-- `Transition`, a single state change. -/
structure Transition where
  src : State
  dst : State
  reason : String

/-- `serviceStatus`, without its clock readings. -/
structure ServiceStatus where
  name : String
  state : State
  pid : Nat
  restarts : Nat
  lastExit : Int
  transitions : List Transition

/-- The error of `transition`: `invalid transition %s -> %s for service %q: %s`. -/
structure InvalidTransition where
  src : State
  dst : State
  name : String
  reason : String

/-- `newServiceStatus`. -/
def newServiceStatus (name : String) : ServiceStatus :=
  { name, state := .inactive, pid := 0, restarts := 0, lastExit := 0, transitions := [] }

/-- `transition` moves the service to the next state and records the change, if that is valid. -/
def ServiceStatus.transition (status : ServiceStatus) (dst : State) (reason : String) :
    Except InvalidTransition ServiceStatus :=
  if validTransition status.state dst then
    .ok { status with
          transitions := status.transitions ++ [{ src := status.state, dst, reason }]
          state := dst }
  else
    .error { src := status.state, dst, name := status.name, reason }

/-- A call of `transition` whose error is dropped, as all calls in the manager are. -/
def ServiceStatus.move (status : ServiceStatus) (dst : State) (reason : String) : ServiceStatus :=
  match status.transition dst reason with
  | .ok moved => moved
  | .error _ => status

@[simp] theorem ServiceStatus.state_move (status : ServiceStatus) (dst : State) (reason : String) :
    (status.move dst reason).state =
      if validTransition status.state dst then dst else status.state := by
  by_cases valid : validTransition status.state dst
  · simp [ServiceStatus.move, ServiceStatus.transition, valid]
  · simp [ServiceStatus.move, ServiceStatus.transition, valid]

open NuraOS.Services

/-- What one round of a loop of `waitReady` meets. -/
structure Poll where
  /-- The clock at the loop condition, in milliseconds. -/
  now : Int
  /-- `client.Get`: the status code, or an error. -/
  httpStatus : Option Nat
  /-- `net.DialTimeout` succeeds. -/
  dials : Bool
  /-- `m.statuses[u.Name]`. -/
  state : Option State
  /-- The select at the end of the round takes `ctx.Done()`. -/
  cancelled : Bool

/-- The behaviour of a probe during one call of `waitReady`. A round that goes on sleeps 200 ms or a
second. -/
structure Probe where
  start : Int
  poll : Nat → Poll
  starts : start ≤ (poll 0).now
  sleeps : ∀ round, (poll round).now + 200 ≤ (poll (round + 1)).now

def Poll.answer (poll : Poll) : ReadinessType → Option Bool
  | .http =>
    match poll.httpStatus with
    | some code => if code < 500 then some true else none
    | none => none
  | .socket => if poll.dials then some true else none
  | .none | .other _ =>
    match poll.state with
    | some .ready | some .running => some true
    | some .failed => some false
    | _ => none

/-- The loop of `waitReady` from a round on; nothing when it has not ended after `fuel` rounds. -/
def waitLoop (type : ReadinessType) (deadline : Int) (probe : Probe) : Nat → Nat → Option Bool
  | fuel, round =>
    if (probe.poll round).now < deadline then
      match (probe.poll round).answer type with
      | some ready => some ready
      | none =>
        if (probe.poll round).cancelled then
          some false
        else
          match fuel with
          | 0 => none
          | fuel + 1 => waitLoop type deadline probe fuel (round + 1)
    else
      some false

/-- `waitReady`. The clock passes the deadline after at most five rounds for each second. -/
def waitReady (u : ServiceUnit) (probe : Probe) : Option Bool :=
  waitLoop u.readiness.type (probe.start + 1000 * u.readiness.timeout) probe
    (5 * u.readiness.timeout).toNat 0

/-- What `StartPlan` does, in order. -/
inductive StartEvent where
  /-- `go m.socketActivate(ctx, u)`: from here on the unit is launched by its first connection. -/
  | socketActivated (name : String)
  /-- `m.launchUnit(ctx, u)`. -/
  | launched (name : String)
  /-- `m.waitReady(ctx, u)` has returned. -/
  | waited (name : String) (ready : Bool)
deriving DecidableEq

/-- `StartPlan`: gates on the readiness of a unit that itself requires others. A wait that does not
return would keep the rest of the plan from being started. -/
def startPlan (probes : String → Probe) : List ServiceUnit → List StartEvent
  | [] => []
  | u :: plan =>
    if u.socketActivation.enabled then
      .socketActivated u.name :: startPlan probes plan
    else
      .launched u.name ::
        if 0 < u.requires.length then
          match waitReady u (probes u.name) with
          | some ready => .waited u.name ready :: startPlan probes plan
          | none => []
        else
          startPlan probes plan

/-! ### The shutdown sequence -/

inductive Phase where
  /-- Before `cancel()`, the services run. -/
  | serving
  /-- `ShutdownPlan` is at the first of these units, which are in reverse order of the plan. -/
  | stopping (rest : List ServiceUnit)
  /-- In `stop`, SIGTERM has been sent to the unit and its exit is waited for. -/
  | grace (u : ServiceUnit) (rest : List ServiceUnit)
  /-- In `stop`, before `r.cancel()`. -/
  | releasing (u : ServiceUnit) (rest : List ServiceUnit)
deriving DecidableEq

structure Shutdown where
  phase : Phase
  /-- The unit has a process that has not exited. -/
  live : String → Bool
  /-- `cmd.Start` has found the unit's context open and has not forked yet. -/
  starting : String → Bool
  /-- `run.cmd` is set: `stop` has a command to end. -/
  command : String → Bool
  /-- The unit has been sent SIGKILL at the end of its grace period. -/
  killed : String → Bool

def Shutdown.serving (live starting command : String → Bool) : Shutdown :=
  { phase := .serving, live, starting, command, killed := fun _ => false }

inductive Action where
  /-- The `cmd.Start` of a supervisor passes its look at the context. -/
  | begin (name : String)
  /-- It starts the process of the unit, whatever has become of the context since. -/
  | fork (name : String)
  /-- `exec` kills a process whose context is done. -/
  | contextKill (name : String)
  /-- A supervisor records the command. -/
  | record (name : String)
  /-- The process of the unit exits. -/
  | exit (name : String)
  /-- `cancel()` in `Run`, then `ShutdownPlan` begins. -/
  | cancelRoot
  /-- `ShutdownPlan` passes a unit that has no run, or `stop` returns since it has no command. -/
  | pass
  /-- `stop` sends SIGTERM. -/
  | terminate
  /-- In `stop`, `cmd.Wait` has returned. -/
  | waited
  /-- In `stop`, the grace period is over and SIGKILL is sent. -/
  | kill
  /-- `r.cancel()` in `stop`. -/
  | release
deriving DecidableEq

/-- One action; nothing when it is not possible. `cmd.Start` returns the error of a context that is
cancelled before it looks. `cmd.Wait` does not return before the process has exited. -/
def Shutdown.step (plan : List ServiceUnit) (state : Shutdown) : Action → Option Shutdown
  | .begin name =>
    match state.phase with
    | .serving => some { state with starting := Function.update state.starting name true }
    | _ => none
  | .fork name =>
    if state.starting name then
      some { state with live := Function.update state.live name true
                        starting := Function.update state.starting name false }
    else
      none
  | .contextKill name =>
    match state.phase with
    | .serving => none
    | _ => if state.live name then some state else none
  | .record name => some { state with command := Function.update state.command name true }
  | .exit name => some { state with live := Function.update state.live name false }
  | .cancelRoot =>
    match state.phase with
    | .serving => some { state with phase := .stopping plan.reverse }
    | _ => none
  | .pass =>
    match state.phase with
    | .stopping (u :: rest) =>
      if state.command u.name then none else some { state with phase := .stopping rest }
    | _ => none
  | .terminate =>
    match state.phase with
    | .stopping (u :: rest) =>
      if state.command u.name then some { state with phase := .grace u rest } else none
    | _ => none
  | .waited =>
    match state.phase with
    | .grace u rest =>
      if state.live u.name then none else some { state with phase := .releasing u rest }
    | _ => none
  | .kill =>
    match state.phase with
    | .grace u rest =>
      some { state with phase := .releasing u rest
                        killed := Function.update state.killed u.name true }
    | _ => none
  | .release =>
    match state.phase with
    | .releasing _ rest => some { state with phase := .stopping rest }
    | _ => none

/-- The action of the manager reaches the running process of the unit: a signal to it, or the end of a
context its command was started with. Every run context descends from the one `Run` cancels. -/
def Shutdown.Reaches (state : Shutdown) (action : Action) (name : String) : Prop :=
  state.live name = true ∧
    match action, state.phase with
    | .cancelRoot, _ => True
    | .contextKill unit, _ => unit = name
    | .terminate, .stopping (u :: _) => u.name = name
    | .kill, .grace u _ => u.name = name
    | .release, .releasing u _ => u.name = name
    | _, _ => False

/-- What the action reaches comes after everything later in the plan: those processes have exited, or
have been sent SIGKILL after their grace period. -/
def Shutdown.InOrder (plan : List ServiceUnit) (state : Shutdown) (action : Action) : Prop :=
  ∀ front u back, plan = front ++ u :: back → state.Reaches action u.name →
    ∀ w ∈ back, state.live w.name = false ∨ state.killed w.name = true

/-- The unit has a process, or will have one that no context keeps from starting. -/
def Shutdown.Up (state : Shutdown) (name : String) : Prop :=
  state.live name = true ∨ state.starting name = true

def Shutdown.AtMostOneUp (plan : List ServiceUnit) (state : Shutdown) : Prop :=
  plan.Pairwise fun u w => ¬ (state.Up u.name ∧ state.Up w.name)

open Foundation Foundation.Scanner

def isReadyLine (line : Bytes) : Bool :=
  trimSpace line = utf8 "READY=1"

/-- What `notifyListener` has made of the bytes written to the pipe so far. -/
inductive Heard where
  /-- It has sent on the ready channel and returned. -/
  | ready
  /-- It has returned at the end of its input. -/
  | ended
  /-- It waits for more. -/
  | waiting

/-- `notifyListener`. -/
def notifyListener (closed : Bool) (written : Bytes) : Heard :=
  let scanned := scan closed written
  if scanned.tokens.any isReadyLine then
    .ready
  else
    match scanned.ending with
    | .pending => .waiting
    | .eof | .tooLong => .ended

/-! ### The machine -/

structure Child where
  /-- The exit code, once it has exited. -/
  exit : Option Int
  /-- What it has written to the pipe. -/
  written : Bytes
  /-- The write end is closed. -/
  closed : Bool
  /-- The listener has not returned. -/
  listening : Bool
  /-- The ready channel holds a value. -/
  token : Bool
deriving DecidableEq

/-- Where `restartLoop` is, each before the step it names. -/
inductive Loop where
  /-- `if ctx.Err() != nil` at the head of the loop. -/
  | checking
  /-- `transition(StateStarting)`. -/
  | entering
  /-- `spawnProcess`, up to the check of the context in `cmd.Start`. -/
  | spawning
  /-- `cmd.Start`, past that check. -/
  | forking
  /-- `transition(StateFailed)` after a spawn error. -/
  | spawnFailed (text : String)
  /-- `run.cmd = cmd`. -/
  | recording
  /-- The select on the ready channel and the context. -/
  | awaitingReady
  /-- `transition(StateReady)`. -/
  | readying (reason : String)
  /-- `transition(StateRunning)`. -/
  | settling
  /-- `cmd.Wait`. -/
  | waiting
  /-- The check of the context after `cmd.Wait`, and the restart policy. -/
  | exited (code : Int)
  /-- `transition(StateFailed)` when the policy does not restart. -/
  | givingUp (code : Int)
  /-- Crash-loop detection. -/
  | crashed
  /-- `transition(StateFailed)` in a crash loop. -/
  | crashLooping
  /-- The select on the crash-loop pause and the context. -/
  | crashPausing
  /-- `status.restarts++`. -/
  | counting
  /-- The select on the backoff and the context. -/
  | backingOff
  | returned
deriving DecidableEq

/-- Where the call of `StopService` is. -/
inductive Stop where
  | notCalled
  /-- After `transition(StateStopping)`, before `stop` reads `r.cmd`. -/
  | marked
  /-- `stop` has sent SIGTERM to this process and waits. -/
  | waitingFor (pid : Nat)
  /-- Before `r.cancel()`. -/
  | cancelling
  /-- `stop` has returned, before `transition(StateInactive)`. -/
  | finishing
  /-- `StopService` has returned nil. -/
  | returned
deriving DecidableEq

structure Service where
  status : ServiceStatus
  loop : Loop
  /-- The current backoff, in seconds. -/
  backoff : Int
  crashTimes : List Int
  /-- `run.cmd`. -/
  command : Option Nat
  child : Option Child
  /-- The processes started so far; the newest has this number. -/
  launches : Nat
  /-- `run.ctx` is done. -/
  cancelled : Bool
  stop : Stop

/-- The unit as `launchUnit` leaves it, its supervisor about to enter the loop. -/
def Service.launched (u : ServiceUnit) : Service :=
  { status := newServiceStatus u.name
    loop := .checking
    backoff := u.restart.backoffInit
    crashTimes := []
    command := none
    child := none
    launches := 0
    cancelled := false
    stop := .notCalled }

inductive Step where
  /-- The supervisor goes on: a call that needs nobody, a value from the ready channel, a timer. -/
  | proceed
  /-- `spawnProcess` fails with this error. -/
  | spawnError (text : String)
  /-- A select of the supervisor takes `ctx.Done()`. -/
  | contextDone
  /-- The supervisor's `cmd.Wait` returns, with the exit status or (when `stop` waits for the same
  process and has taken it) with another error. -/
  | waitReturns (reaped : Bool)
  /-- Crash-loop detection reads the clock. -/
  | crashClock (now : Int)
  | childWrites (bytes : Bytes)
  | childCloses
  | childExits (code : Int)
  /-- The listener takes in what has been written. -/
  | listen
  | stopBegin
  | stopRead
  /-- In `stop`, `cmd.Wait` has returned. -/
  | stopWaited
  /-- In `stop`, the grace period is over and SIGKILL is sent. -/
  | stopTimeout
  | stopCancel
  | stopEnd

/-- A step of `StopService`. -/
def Step.isStop : Step → Bool
  | .stopBegin | .stopRead | .stopWaited | .stopTimeout | .stopCancel | .stopEnd => true
  | _ => false

def shouldRestart (policy : RestartPolicy) (exitCode : Int) : Bool :=
  match policy with
  | .always => true
  | .onFailure => exitCode ≠ 0
  | .no | .other _ => false

def policyText : RestartPolicy → String
  | .no => "no"
  | .onFailure => "on-failure"
  | .always => "always"
  | .other text => text

def nextBackoff (restart : Restart) (backoff : Int) : Int :=
  let doubled := if 0 < backoff then backoff * 2 else restart.backoffInit
  if restart.backoffMax < doubled then restart.backoffMax else doubled

def addCrash (restart : Restart) (crashTimes : List Int) (now : Int) : List Int :=
  (crashTimes ++ [now]).dropWhile (· < now - restart.crashLoopWindow)

def Child.started (u : ServiceUnit) : Child :=
  { exit := none, written := [], closed := false, listening := u.type = .notify, token := false }

def Service.proceed (u : ServiceUnit) (s : Service) : Option Service :=
  match s.loop with
  | .checking => some { s with loop := if s.cancelled then .returned else .entering }
  | .entering =>
    some { s with status := s.status.move .starting "starting process", loop := .spawning }
  | .spawning =>
    some { s with loop := if s.cancelled then .spawnFailed "context canceled" else .forking }
  | .forking =>
    some { s with launches := s.launches + 1, child := some (.started u), loop := .recording }
  | .spawnFailed text =>
    some { s with status := s.status.move .failed ("spawn error: " ++ text)
                  loop := if u.restart.policy = .no then .returned else .counting }
  | .recording =>
    some { s with command := some s.launches
                  status := { s.status with pid := s.launches }
                  loop := if u.type = .notify then .awaitingReady else .readying "launched" }
  | .awaitingReady =>
    match s.child with
    | some child =>
      if child.token then
        some { s with child := some { child with token := false }
                      loop := .readying "notify: READY=1" }
      else
        none
    | none => none
  | .readying reason => some { s with status := s.status.move .ready reason, loop := .settling }
  | .settling => some { s with status := s.status.move .running "ready -> running", loop := .waiting }
  | .exited code =>
    if s.cancelled then
      some { s with loop := .returned }
    else
      some { s with status := { s.status with lastExit := code }
                    loop := if shouldRestart u.restart.policy code then .crashed
                      else .givingUp code }
  | .givingUp code =>
    some { s with status := s.status.move .failed
                    ("exit " ++ toString code ++ "; policy=" ++ policyText u.restart.policy)
                  loop := .returned }
  | .crashLooping =>
    some { s with status := s.status.move .failed
                    ("crash-loop: " ++ toString s.crashTimes.length ++ " crashes")
                  loop := .crashPausing }
  | .crashPausing =>
    some { s with crashTimes := [], backoff := u.restart.backoffInit, loop := .counting }
  | .counting =>
    some { s with status := { s.status with restarts := s.status.restarts + 1 }
                  loop := .backingOff }
  | .backingOff => some { s with backoff := nextBackoff u.restart s.backoff, loop := .checking }
  | .waiting | .crashed | .returned => none

def Service.hasExited (s : Service) (pid : Nat) : Bool :=
  pid < s.launches || (s.child.bind Child.exit).isSome

/-- One step; nothing when it is not possible. No step is ever forced, so that a second concurrent
`cmd.Wait` on one process, which may hang, is among the runs. -/
def Service.step (u : ServiceUnit) (s : Service) : Step → Option Service
  | .proceed => s.proceed u
  | .spawnError text =>
    match s.loop with
    | .spawning | .forking => some { s with loop := .spawnFailed text }
    | _ => none
  | .contextDone =>
    match s.loop with
    | .awaitingReady | .crashPausing | .backingOff =>
      if s.cancelled then some { s with loop := .returned } else none
    | _ => none
  | .waitReturns reaped =>
    match s.loop, s.child.bind Child.exit with
    | .waiting, some code =>
      if reaped then
        some { s with loop := .exited code }
      else
        match s.stop with
        | .notCalled => none
        | _ => some { s with loop := .exited 0 }
    | _, _ => none
  | .crashClock now =>
    match s.loop with
    | .crashed =>
      let crashTimes := addCrash u.restart s.crashTimes now
      some { s with crashTimes
                    loop := if u.restart.crashLoopLimit ≤ crashTimes.length then .crashLooping
                      else .counting }
    | _ => none
  | .childWrites bytes =>
    match s.child with
    | some child =>
      if child.closed then none
      else some { s with child := some { child with written := child.written ++ bytes } }
    | none => none
  | .childCloses =>
    match s.child with
    | some child => some { s with child := some { child with closed := true } }
    | none => none
  | .childExits code =>
    match s.child with
    | some child =>
      match child.exit with
      | none => some { s with child := some { child with exit := some code, closed := true } }
      | some _ => none
    | none => none
  | .listen =>
    match s.child with
    | some child =>
      if child.listening then
        match notifyListener child.closed child.written with
        | .ready => some { s with child := some { child with listening := false, token := true } }
        | .ended => some { s with child := some { child with listening := false } }
        | .waiting => none
      else
        none
    | none => none
  | .stopBegin =>
    match s.stop with
    | .notCalled =>
      some { s with status := s.status.move .stopping "nuractl stop", stop := .marked }
    | _ => none
  | .stopRead =>
    match s.stop with
    | .marked =>
      match s.command with
      | none => some { s with stop := .finishing }
      | some pid => some { s with stop := .waitingFor pid }
    | _ => none
  | .stopWaited =>
    match s.stop with
    | .waitingFor pid => if s.hasExited pid then some { s with stop := .cancelling } else none
    | _ => none
  | .stopTimeout =>
    match s.stop with
    | .waitingFor _ => some { s with stop := .cancelling }
    | _ => none
  | .stopCancel =>
    match s.stop with
    | .cancelling => some { s with cancelled := true, stop := .finishing }
    | _ => none
  | .stopEnd =>
    match s.stop with
    | .finishing =>
      some { s with status := s.status.move .inactive "stopped via nuractl", stop := .returned }
    | _ => none

/-- A start attempt that has ended in a spawn error or in an exit that calls for a restart. -/
structure Attempt where
  /-- When the supervisor saw its end. -/
  ended : Int
  spawnError : Bool
  /-- The crash-loop pause follows it. -/
  paused : Bool
deriving DecidableEq

structure Timed where
  service : Service
  now : Int
  /-- When the timer of the supervisor's newest select fires. -/
  deadline : Int
  /-- The attempts that have ended, the newest last. The supervisor does not keep this list. -/
  attempts : List Attempt

/-- The unit as `launchUnit` leaves it at this time. -/
def Timed.launched (u : ServiceUnit) (start : Int) : Timed :=
  { service := .launched u, now := start, deadline := start, attempts := [] }

inductive Tick where
  /-- Time goes by. -/
  | wait (seconds : Nat)
  | act (step : Step)

/-- A timer has fired before the supervisor goes on from its select, and crash-loop detection reads
the time that it is. -/
def Timed.due (t : Timed) : Step → Bool
  | .proceed =>
    match t.service.loop with
    | .crashPausing | .backingOff => t.deadline ≤ t.now
    | _ => true
  | .crashClock clock => clock = t.now
  | _ => true

/-- Whether the step ends an attempt, and if so whether in a spawn error. `cmd.Start` returns the error
of a context that is done. -/
def Timed.ends (t : Timed) : Tick → Option Bool
  | .act (.spawnError _) => some true
  | .act .proceed =>
    if t.service.loop = .spawning ∧ t.service.cancelled = true then some true else none
  | .act (.crashClock _) => some false
  | _ => none

/-- The deadline after a step to this service: a select that is entered makes a new timer. -/
def Timed.timer (u : ServiceUnit) (t : Timed) (next : Service) : Int :=
  if next.loop = t.service.loop then
    t.deadline
  else
    match next.loop with
    | .crashPausing => t.now + u.restart.crashLoopBackoff
    | .backingOff => t.now + next.backoff
    | _ => t.deadline

def Timed.record (t : Timed) (tick : Tick) (next : Service) : List Attempt :=
  match t.ends tick with
  | some spawnError =>
    t.attempts ++ [{ ended := t.now, spawnError, paused := next.loop = .crashLooping }]
  | none => t.attempts

def Timed.step (u : ServiceUnit) (t : Timed) : Tick → Option Timed
  | .wait seconds => some { t with now := t.now + seconds }
  | .act step =>
    if t.due step then
      (t.service.step u step).map fun next =>
        { t with service := next
                 deadline := t.timer u next
                 attempts := t.record (.act step) next }
    else
      none

/-- Of the attempts that ended at these times and one that ends now, those of the last
`CrashLoopWindow` seconds reach the `CrashLoopLimit`. -/
def CrashLoop (restart : Restart) (earlier : List Int) (now : Int) : Prop :=
  restart.crashLoopLimit ≤
    ((earlier ++ [now]).filter (now - restart.crashLoopWindow ≤ ·)).length

instance (restart : Restart) (earlier : List Int) (now : Int) :
    Decidable (CrashLoop restart earlier now) :=
  inferInstanceAs (Decidable (_ ≤ _))

/-- `CrashLoopBackoff` seconds have passed since each attempt whose end made a crash loop. -/
def Rested (restart : Restart) (attempts : List Attempt) (now : Int) : Prop :=
  ∀ front last, front ++ [last] <+: attempts →
    CrashLoop restart (front.map Attempt.ended) last.ended →
      last.ended + restart.crashLoopBackoff ≤ now

def parseKV (key : String) : List (String × Nat) → Nat
  | [] => 0
  | (name, number) :: lines => if name = key then number else parseKV key lines

/-- What the kernel writes to `memory.events` after so many kills. -/
def memoryEvents (kills : Nat) : List (String × Nat) :=
  [("low", 0), ("high", 0), ("max", 0), ("oom", kills), ("oom_kill", kills), ("oom_group_kill", 0)]

def readOOMKill (kills : Nat) : Nat := parseKV "oom_kill" (memoryEvents kills)

@[simp] theorem readOOMKill_eq (kills : Nat) : readOOMKill kills = kills := by
  simp [readOOMKill, memoryEvents, parseKV]

structure Monitored where
  service : Service
  /-- The counter `oom_kill`. The cgroup is the same for every process of the unit. -/
  kills : Nat
  /-- `lastOOM` of each goroutine. One that has returned ticks no more. -/
  watchers : List Nat
  /-- The `new_kills` of the log, the newest last. -/
  logged : List Nat

def Monitored.launched (u : ServiceUnit) : Monitored := ⟨.launched u, 0, [], []⟩

inductive OomEvent where
  /-- A step of the unit; `AddPid` succeeds if the step calls it. -/
  | act (step : Step) (added : Bool)
  | kill
  /-- The ticker of this goroutine fires and the counter is read. -/
  | tick (watcher : Nat)

def Monitored.startsWatcher (m : Monitored) : Step → Bool
  | .proceed => m.service.loop = .recording
  | _ => false

def Monitored.step (u : ServiceUnit) (m : Monitored) : OomEvent → Option Monitored
  | .act step added =>
    (m.service.step u step).map fun next =>
      { m with service := next
               watchers := if m.startsWatcher step ∧ added then m.watchers ++ [0] else m.watchers }
  | .kill => some { m with kills := m.kills + 1 }
  | .tick watcher =>
    m.watchers[watcher]?.map fun lastOOM =>
      let n := readOOMKill m.kills
      if lastOOM < n then { m with watchers := m.watchers.set watcher n, logged := m.logged ++ [n - lastOOM] }
      else m

def Monitored.Accounted (m : Monitored) : Prop := m.logged.sum ≤ m.kills

instance (m : Monitored) : Decidable m.Accounted := inferInstanceAs (Decidable (_ ≤ _))

def ReportsAlone (m : Monitored) : OomEvent → Prop
  | .tick watcher =>
    ∀ lastOOM ∈ m.watchers[watcher]?, lastOOM < m.kills → ∀ other ∈ m.watchers.eraseIdx watcher, other = 0
  | _ => True

instance (m : Monitored) : DecidablePred (ReportsAlone m)
  | .tick _ => inferInstanceAs (Decidable (∀ _ ∈ _, _ → ∀ _ ∈ _, _ = _))
  | .act .. | .kill => .isTrue trivial

inductive StopReason where
  | nuractl
  | shutdown
  | idle

/-- The reason given for `StateStopping`. -/
def StopReason.stopping : StopReason → String
  | .nuractl => "nuractl stop"
  | .shutdown => "ordered shutdown"
  | .idle => "idle timeout"

/-- The reason given for `StateInactive`. -/
def StopReason.stopped : StopReason → String
  | .nuractl => "stopped via nuractl"
  | .shutdown => "stopped"
  | .idle => "idle-stopped"

inductive StopPhase where
  /-- `transition(StateStopping)`. -/
  | marking
  /-- `stop` reads `r.cmd`. -/
  | reading
  /-- `stop` has sent SIGTERM to this process and waits. -/
  | grace (process : Nat)
  /-- `r.cancel()`. -/
  | cancelling
  /-- `transition(StateInactive)`, after `stop` has returned. -/
  | finishing
  | returned
deriving DecidableEq

/-- The next phase, given `r.cmd` and the processes that have exited; the grace period may be over. -/
def StopPhase.next (command : Option Nat) (exited : Nat → Bool) (timeout : Bool) :
    StopPhase → Option StopPhase
  | .marking => some .reading
  | .reading =>
    match command with
    | none => some .finishing
    | some process => some (.grace process)
  | .grace process => if exited process || timeout then some .cancelling else none
  | .cancelling => some .finishing
  | .finishing => some .returned
  | .returned => none

def StopPhase.report (phase : StopPhase) (reason : StopReason) (status : ServiceStatus) :
    ServiceStatus :=
  match phase with
  | .marking => status.move .stopping reason.stopping
  | .finishing => status.move .inactive reason.stopped
  | _ => status

def StopPhase.Blocked (exited : Nat → Bool) : StopPhase → Prop
  | .grace process => exited process = false
  | .returned => True
  | _ => False

/-- A call, with the run it has read from `m.procs`. -/
structure Caller where
  reason : StopReason
  run : Nat
  phase : StopPhase

/-- A launched unit with the calls that stop it; the field `stop` of the service is not used. -/
structure Managed where
  service : Service
  callers : List Caller

/-- The unit as `launchUnit` leaves it. -/
def Managed.launched (u : ServiceUnit) : Managed :=
  { service := .launched u, callers := [] }

inductive ManagedStep where
  /-- A step of the supervisor, the child or the listener. -/
  | own (step : Step)
  /-- The supervisor's `cmd.Wait` returns with another error, since the `cmd.Wait` of a call has taken
  the exit status. -/
  | waitTaken
  | call (reason : StopReason)
  | caller (index : Nat) (timeout : Bool)
  /-- `Run` cancels the context that all others descend from. -/
  | cancelRoot

/-- The call waits for a process, or has done so and is about to cancel the run. -/
def Caller.waits (caller : Caller) : Bool :=
  match caller.phase with
  | .grace _ | .cancelling => true
  | .marking | .reading | .finishing | .returned => false

def Managed.step (u : ServiceUnit) (s : Managed) : ManagedStep → Option Managed
  | .own step =>
    if step.isStop then none
    else (s.service.step u step).map fun next => { s with service := next }
  | .waitTaken =>
    match s.service.loop, s.service.child.bind Child.exit with
    | .waiting, some _ =>
      if s.service.cancelled || s.callers.any Caller.waits then
        some { s with service := { s.service with loop := .exited 0 } }
      else
        none
    | _, _ => none
  | .call reason => some { s with callers := s.callers ++ [{ reason, run := 0, phase := .marking }] }
  | .caller index timeout =>
    match s.callers[index]? with
    | some caller =>
      (caller.phase.next s.service.command s.service.hasExited timeout).map fun phase =>
        { service := { s.service with
            status := caller.phase.report caller.reason s.service.status
            cancelled := s.service.cancelled || caller.phase = .cancelling }
          callers := s.callers.set index { caller with phase } }
    | none => none
  | .cancelRoot => some { s with service := { s.service with cancelled := true } }

def Managed.Live (s : Managed) : Prop :=
  s.service.child.map Child.exit = some none

def Managed.HasExited (s : Managed) : Prop :=
  ∃ code, s.service.child.map Child.exit = some (some code)

/-- The supervisor waits: for its process, an announcement, a timer; or it has returned. -/
def Service.LoopBlocked (s : Service) : Prop :=
  match s.loop with
  | .awaitingReady => s.cancelled = false ∧ ∀ child, s.child = some child → child.token = false
  | .waiting => ∀ child, s.child = some child → child.exit = none
  | .crashPausing | .backingOff => s.cancelled = false
  | .returned => True
  | _ => False

def Service.ListenerBlocked (s : Service) : Prop :=
  ∀ child, s.child = some child → child.listening = true →
    notifyListener child.closed child.written = .waiting

structure Managed.Blocked (s : Managed) : Prop where
  loop : s.service.LoopBlocked
  listener : s.service.ListenerBlocked
  callers : ∀ caller ∈ s.callers, caller.phase.Blocked s.service.hasExited

/-! ### Socket activation -/

inductive Process where
  | notStarted
  | live
  | exited
deriving DecidableEq

/-- Where the goroutine of `launchSocketUnit` is, each before the step it names. -/
inductive RunStage where
  /-- `transition(StateStarting)`. -/
  | entering
  /-- `holder.File()`. -/
  | opening
  /-- `cmd.Start`, up to its check of the context. -/
  | starting
  /-- `cmd.Start`, past that check. -/
  | forking
  /-- `run.cmd = cmd`. -/
  | recording
  /-- `transition(StateReady)`. -/
  | readying
  /-- `transition(StateRunning)`. -/
  | settling
  /-- `cmd.Wait`. -/
  | waiting
  /-- `transition(StateInactive)` after the exit. -/
  | leaving
  /-- `transition(StateFailed)` with this reason. -/
  | failing (reason : String)
  /-- `cancel()`. -/
  | cancelling
  | returned
deriving DecidableEq

/-- A `serviceRun` of the unit, with its goroutine. -/
structure SocketRun where
  stage : RunStage
  /-- `run.cmd` is set. -/
  command : Bool
  process : Process
  /-- `cancel` of the run has been called. -/
  cancelled : Bool
deriving DecidableEq

/-- A run as `launchSocketUnit` returns it. -/
def SocketRun.launched : SocketRun :=
  { stage := .entering, command := false, process := .notStarted, cancelled := false }

/-- Where `socketActivate` is. -/
inductive Activator where
  /-- `NewHolder`. -/
  | binding
  /-- `if ctx.Err() != nil` at the head of the loop. -/
  | checking
  /-- `Accept` in `WaitFirstConnection`. -/
  | accepting
  /-- `touchActivity` in `WaitFirstConnection`, for a client that connected at this time. -/
  | touching (connected : Int)
  /-- `TouchActivity` in `socketActivate`. -/
  | touchingAgain
  /-- `launchSocketUnit`. -/
  | launching
  /-- `m.procs[u.Name] = run`. -/
  | storing (run : Nat)
  /-- `waitRunStopped` reads `m.procs`. -/
  | awaiting
  /-- `waitRunStopped` waits for the end of this run. -/
  | waitingOn (run : Nat)
  | returned

/-- Where `IdleMonitor` is. -/
inductive Monitor where
  /-- Not started, or returned. -/
  | off
  /-- The select on the ticker and the context. -/
  | ticking
  /-- `onIdle` reads `m.procs`. -/
  | reading
  /-- `onIdle` marks the unit and calls `stop` on this run. -/
  | stopping (run : Nat) (phase : StopPhase)
  /-- `m.procs[u.Name] = nil`. -/
  | clearing
  /-- `transition(StateInactive)`. -/
  | finishing
  /-- `touchActivity` after `onIdle`. -/
  | resetting
deriving DecidableEq

structure Activation where
  status : ServiceStatus
  now : Int
  /-- `holder.lastActivity`. -/
  lastActivity : Int
  /-- The manager's context is done. -/
  cancelled : Bool
  activator : Activator
  monitor : Monitor
  /-- All runs so far, the oldest first. -/
  runs : List SocketRun
  /-- `m.procs[u.Name]`. -/
  proc : Option Nat
  callers : List Caller
  /-- When the clients connected that nobody has accepted yet, the oldest first. -/
  pending : List Int
  /-- When the clients connected that a process of the unit has accepted. -/
  served : List Int
  /-- When the clients connected that the `Holder` has recorded. -/
  seen : List Int

/-- The unit as `StartPlan` leaves it at this time. -/
def Activation.planned (u : ServiceUnit) (start : Int) : Activation :=
  { status := newServiceStatus u.name
    now := start
    lastActivity := start
    cancelled := false
    activator := .binding
    monitor := .off
    runs := []
    proc := none
    callers := []
    pending := []
    served := []
    seen := [] }

inductive Event where
  /-- Time goes by. -/
  | wait (seconds : Nat)
  /-- A client connects to the socket. -/
  | connect
  /-- A process of the unit accepts the oldest client through the inherited socket. -/
  | serve
  /-- `socketActivate` goes on. -/
  | activate
  /-- `NewHolder` or `Accept` fails, or `WaitFirstConnection` is cancelled. -/
  | activateError
  /-- The goroutine of the run goes on; `holder.File` or `cmd.Start` may fail with this error. -/
  | run (index : Nat) (error : Option String)
  /-- The process of the run exits. -/
  | exits (index : Nat)
  /-- The ticker fires. -/
  | tick
  /-- The monitor's select takes `ctx.Done()`. -/
  | monitorDone
  /-- The monitor goes on; its `stop` may run out of time. -/
  | monitor (timeout : Bool)
  /-- `StopService` or `ShutdownPlan` finds the unit's run. -/
  | call (reason : StopReason)
  | caller (index : Nat) (timeout : Bool)
  | cancelRoot

/-- `r.cmd`, as a process of that number. -/
def Activation.command (s : Activation) (run : Nat) : Option Nat :=
  match s.runs[run]? with
  | some { command := true, .. } => some run
  | _ => none

def Activation.hasExited (s : Activation) (run : Nat) : Bool :=
  match s.runs[run]? with
  | some { process := .exited, .. } => true
  | _ => false

/-- `run.ctx` is done. -/
def Activation.runDone (s : Activation) (run : Nat) : Bool :=
  s.cancelled ||
    match s.runs[run]? with
    | some { cancelled, .. } => cancelled
    | none => false

/-- `r.cancel()`. -/
def Activation.cancelRun (s : Activation) (run : Nat) : List SocketRun :=
  s.runs.modify run fun r => { r with cancelled := true }

/-- The next step of `socketActivate`. -/
def Activation.activate (u : ServiceUnit) (s : Activation) : Option Activation :=
  match s.activator with
  | .binding =>
    some { s with lastActivity := s.now
                  monitor := if 0 < u.socketActivation.idleTimeout then .ticking else .off
                  activator := .checking }
  | .checking => some { s with activator := if s.cancelled then .returned else .accepting }
  | .accepting =>
    match s.pending with
    | connected :: rest => some { s with pending := rest, activator := .touching connected }
    | [] => none
  | .touching connected =>
    some { s with lastActivity := s.now, seen := s.seen ++ [connected], activator := .touchingAgain }
  | .touchingAgain => some { s with lastActivity := s.now, activator := .launching }
  | .launching => some { s with runs := s.runs ++ [.launched], activator := .storing s.runs.length }
  | .storing run => some { s with proc := some run, activator := .awaiting }
  | .awaiting =>
    match s.proc with
    | none => some { s with activator := .checking }
    | some run => some { s with activator := .waitingOn run }
  | .waitingOn run => if s.runDone run then some { s with activator := .checking } else none
  | .returned => none

/-- The next step of the goroutine of a run: what it makes of the run, and of the status. `done` says
that the context of the run is done. -/
def SocketRun.next (done : Bool) (pid : Nat) (run : SocketRun) (status : ServiceStatus) :
    Option String → Option (SocketRun × ServiceStatus)
  | none =>
    match run.stage with
    | .entering =>
      some ({ run with stage := .opening }, status.move .starting "socket activation")
    | .opening => some ({ run with stage := .starting }, status)
    | .starting =>
      some ({ run with stage := if done then .failing "start: context canceled" else .forking }, status)
    | .forking => some ({ run with stage := .recording, process := .live }, status)
    | .recording => some ({ run with stage := .readying, command := true }, { status with pid })
    | .readying => some ({ run with stage := .settling }, status.move .ready "socket-activated")
    | .settling => some ({ run with stage := .waiting }, status.move .running "ready -> running")
    | .waiting =>
      match run.process with
      | .exited => some ({ run with stage := .leaving }, status)
      | _ => none
    | .leaving => some ({ run with stage := .cancelling }, status.move .inactive "exited")
    | .failing reason => some ({ run with stage := .cancelling }, status.move .failed reason)
    | .cancelling => some ({ run with stage := .returned, cancelled := true }, status)
    | .returned => none
  | some error =>
    match run.stage with
    | .opening => some ({ run with stage := .failing ("holder.File: " ++ error) }, status)
    | .starting | .forking => some ({ run with stage := .failing ("start: " ++ error) }, status)
    | _ => none

def Activation.onIdle (s : Activation) (timeout : Bool) : Option Activation :=
  match s.monitor with
  | .reading =>
    match s.proc with
    | none => some { s with monitor := .resetting }
    | some run => some { s with monitor := .stopping run .marking }
  | .stopping run phase =>
    match phase.next (s.command run) s.hasExited timeout with
    | none => none
    | some next =>
      some { s with
        status := phase.report .idle s.status
        runs := if phase = .cancelling then s.cancelRun run else s.runs
        -- `m.procs` is cleared after `stop` and before the last transition.
        monitor := if next = .finishing then .clearing else .stopping run next }
  | .clearing => some { s with proc := none, monitor := .finishing }
  | .finishing =>
    some { s with status := StopPhase.finishing.report .idle s.status, monitor := .resetting }
  | .resetting => some { s with lastActivity := s.now, monitor := .ticking }
  | .off | .ticking => none

/-- One step; nothing when it is not possible. The ticker may fire at any time, which covers a period
of half the timeout. -/
def Activation.step (u : ServiceUnit) (s : Activation) : Event → Option Activation
  | .wait seconds => some { s with now := s.now + seconds }
  | .connect => some { s with pending := s.pending ++ [s.now] }
  | .serve =>
    if s.runs.any (·.process = .live) then
      match s.pending with
      | connected :: rest => some { s with pending := rest, served := s.served ++ [connected] }
      | [] => none
    else
      none
  | .activate => s.activate u
  | .activateError =>
    match s.activator with
    | .binding | .accepting => some { s with activator := .returned }
    | _ => none
  | .run index error =>
    match s.runs[index]? with
    | some run =>
      (run.next (s.runDone index) (index + 1) s.status error).map fun (next, status) =>
        { s with runs := s.runs.set index next, status }
    | none => none
  | .exits index =>
    match s.runs[index]? with
    | some run =>
      match run.process with
      | .live => some { s with runs := s.runs.set index { run with process := .exited } }
      | _ => none
    | none => none
  | .tick =>
    match s.monitor with
    | .ticking =>
      if u.socketActivation.idleTimeout ≤ s.now - s.lastActivity then
        some { s with monitor := .reading }
      else
        some s
    | _ => none
  | .monitorDone =>
    match s.monitor with
    | .ticking => if s.cancelled then some { s with monitor := .off } else none
    | _ => none
  | .monitor timeout => s.onIdle timeout
  | .call reason =>
    match s.proc with
    | some run => some { s with callers := s.callers ++ [{ reason, run, phase := .marking }] }
    | none => none
  | .caller index timeout =>
    match s.callers[index]? with
    | some caller =>
      (caller.phase.next (s.command caller.run) s.hasExited timeout).map fun phase =>
        { s with
          status := caller.phase.report caller.reason s.status
          runs := if caller.phase = .cancelling then s.cancelRun caller.run else s.runs
          callers := s.callers.set index { caller with phase } }
    | none => none
  | .cancelRoot => some { s with cancelled := true }

variable {u : ServiceUnit} {s next : Activation} {index : Nat}

theorem Activation.step_run_iff {error : Option String} :
    s.step u (.run index error) = some next ↔
      ∃ run after status, s.runs[index]? = some run ∧
        run.next (s.runDone index) (index + 1) s.status error = some (after, status) ∧
        { s with runs := s.runs.set index after, status } = next := by
  simp only [Activation.step]
  cases s.runs[index]? with
  | none => simp
  | some run => simp [Option.map_eq_some_iff]

theorem Activation.step_caller_iff {timeout : Bool} :
    s.step u (.caller index timeout) = some next ↔
      ∃ caller phase, s.callers[index]? = some caller ∧
        caller.phase.next (s.command caller.run) s.hasExited timeout = some phase ∧
        { s with
          status := caller.phase.report caller.reason s.status
          runs := if caller.phase = .cancelling then s.cancelRun caller.run else s.runs
          callers := s.callers.set index { caller with phase } } = next := by
  simp only [Activation.step]
  cases s.callers[index]? with
  | none => simp
  | some caller => simp [Option.map_eq_some_iff]

def Activation.Live (s : Activation) : Prop :=
  ∃ run ∈ s.runs, run.process = .live

def Activation.HasExited (s : Activation) : Prop :=
  ∃ run ∈ s.runs, run.process = .exited

/-- `socketActivate` waits for a client or for the end of a run, or has returned. -/
def Activation.ActivatorBlocked (s : Activation) : Activator → Prop
  | .accepting => s.pending = [] ∧ s.cancelled = false
  | .waitingOn run => s.runDone run = false
  | .returned => True
  | _ => False

def Activation.MonitorBlocked (s : Activation) : Monitor → Prop
  | .off => True
  | .ticking => s.cancelled = false
  | .stopping _ phase => phase.Blocked s.hasExited
  | _ => False

structure Activation.Blocked (s : Activation) : Prop where
  activator : s.ActivatorBlocked s.activator
  monitor : s.MonitorBlocked s.monitor
  runs : ∀ run ∈ s.runs, run.stage = .returned ∨ run.stage = .waiting ∧ run.process = .live
  callers : ∀ caller ∈ s.callers, caller.phase.Blocked s.hasExited

def firstClient : List Event :=
  [.activate, .activate, .connect, .activate, .activate, .activate, .activate, .activate, .activate] ++
    List.replicate 7 (.run 0 none)

end NuraOS.Lifecycle
