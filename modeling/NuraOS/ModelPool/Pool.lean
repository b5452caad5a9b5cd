/-
Purpose: The model pool: its operations under the mutex, its goroutines step by step, its use over time, who
  unlocks the mutex, and when an idle check may send the stop command.
-/
import NuraOS.Foundation.Machine

namespace NuraOS.ModelPool

inductive ModelState where
  | unloaded
  | loading
  | loaded
  | unloading
deriving DecidableEq

def ModelState.text : ModelState → String
  | .unloaded => "unloaded"
  | .loading => "loading"
  | .loaded => "loaded"
  | .unloading => "unloading"

structure Config where
  serviceName : String
  ctlSocket : String
  idleTimeout : Nat
  warmPool : Bool
  memoryMargin : UInt64
  readinessTimeout : Nat

namespace Config

variable (cfg : Config)

def service : String := if cfg.serviceName ≠ "" then cfg.serviceName else "llama-server"

def socket : String := if cfg.ctlSocket ≠ "" then cfg.ctlSocket else "/run/nura-manager.sock"

def readiness : Nat := if cfg.readinessTimeout > 0 then cfg.readinessTimeout else 120000000000

end Config

structure Command where
  socket : String
  command : String
  service : String
deriving DecidableEq

def Config.stop (cfg : Config) : Command :=
  { socket := cfg.socket, command := "stop", service := cfg.service }

/-- An event of type `model.state.changed`. -/
structure StateChanged where
  service : String
  previous : String
  current : String

structure Pool where
  state : ModelState
  lastRelease : Nat
  bus : Option (List StateChanged)

/-- `New`. -/
def Pool.new (now : Nat) (bus : Option (List StateChanged)) : Pool :=
  { state := .unloaded, lastRelease := now, bus := bus }

inductive StartError where
  | command (cause : String)
  | failed (message : String)
deriving DecidableEq

/-- Why `Acquire` failed. -/
inductive AcquireError where
  | loadFailed (cause : StartError)
  | timedOut (after : Nat)
  | notLoaded (state : ModelState)
  | cancelled
deriving DecidableEq

structure Stats where
  memoryMax : UInt64
  memoryCurrent : UInt64
deriving DecidableEq

namespace Pool

variable (cfg : Config) (pool : Pool)

def setState (s : ModelState) : Pool :=
  if pool.state = s then pool
  else
    { pool with
      state := s
      bus := pool.bus.map
        (· ++ [{ service := cfg.service, previous := pool.state.text, current := s.text }]) }

/-- `Release`. -/
def release (now : Nat) : Pool := { pool with lastRelease := now }

/-- `NotifyLoaded`, and whether it wakes the waiting goroutines. -/
def notifyLoaded : Pool × Bool :=
  if pool.state = .loading then (pool.setState cfg .loaded, true) else (pool, false)

/-- `NotifyUnloaded`. -/
def notifyUnloaded : Pool := pool.setState cfg .unloaded

def keepsWarm (stats : Option Stats) : Bool :=
  cfg.warmPool &&
    match stats with
    | some stats => stats.memoryMax > 0 ∧ stats.memoryMax - stats.memoryCurrent ≥ cfg.memoryMargin
    | none => false

/-- `checkIdle`, with the command it sends. The result of the command is dropped. -/
def checkIdle (now : Nat) (stats : Option Stats) : Pool × Option Command :=
  if pool.state ≠ .loaded then (pool, none)
  else if now - pool.lastRelease < cfg.idleTimeout then (pool, none)
  else if keepsWarm cfg stats then (pool, none)
  else (pool.setState cfg .unloading, some cfg.stop)

/-- What a goroutine inside `Acquire` waits for: that the unloading ends, or until a deadline that the model
is ready. -/
inductive Stage where
  | unloading
  | ready (deadline : Nat)

/-- How far an `Acquire` has come. -/
inductive Progress where
  | returned (result : Except AcquireError Unit)
  | waiting (stage : Stage)

def load (now : Nat) (reply : Except StartError Unit) : Pool × Progress :=
  match reply with
  | .error cause => (pool, .returned (.error (.loadFailed cause)))
  | .ok _ => (pool.setState cfg .loading, .waiting (.ready (now + cfg.readiness)))

/-- `Acquire`, up to where it waits. -/
def acquire (now : Nat) (reply : Except StartError Unit) : Pool × Progress :=
  match pool.state with
  | .loaded => (pool, .returned (.ok ()))
  | .loading => (pool, .waiting (.ready (now + cfg.readiness)))
  | .unloading => (pool, .waiting .unloading)
  | .unloaded => pool.load cfg now reply

/-- A waiting `Acquire` that looks at the state again. -/
def resume (now : Nat) (reply : Except StartError Unit) : Stage → Pool × Progress
  | .unloading =>
    if pool.state = .unloaded then pool.load cfg now reply else (pool, .waiting .unloading)
  | .ready deadline =>
    match pool.state with
    | .loading =>
      if now > deadline then (pool, .returned (.error (.timedOut cfg.readiness)))
      else (pool, .waiting (.ready deadline))
    | .loaded => (pool, .returned (.ok ()))
    | s => (pool, .returned (.error (.notLoaded s)))

end Pool

/-! ### The goroutines, the mutex and the condition variable -/

/-- The goroutines that call the pool, and the helpers that `waitReady` starts. -/
inductive GoId where
  | user (n : Nat)
  | helper (n : Nat)
deriving DecidableEq

inductive Operation where
  | release
  | notifyLoaded
  | notifyUnloaded
  | state
  | checkIdle (stats : Option Stats)
deriving DecidableEq

inductive Point where
  | idle
  -- An operation: `p.mu.Lock()`, its body, `p.cond.Broadcast()`, `p.mu.Unlock()`.
  | lock (operation : Operation)
  | body (operation : Operation)
  | broadcast (operation : Operation)
  | unlock (operation : Operation)
  -- `Acquire`, with its deferred `p.mu.Unlock()`.
  | acquireLock
  | acquireSwitch
  | acquireStart
  | acquireUnlock (result : Except AcquireError Unit)
  -- `waitState(StateUnloaded)`: the loop, and the four steps of `p.cond.Wait()`.
  | stateCheck
  | stateAdd
  | stateUnlock
  | stateWait
  | stateLock
  -- `waitReady`: the deadline, the loop, `p.mu.Unlock()`, the select, `p.mu.Lock()`.
  | readyEnter
  | readyCheck (deadline : Nat)
  | readyUnlock (deadline helper : Nat)
  | readySelect (deadline helper : Nat)
  | readyLock (deadline : Nat) (cancelled : Bool)
  -- The helper: the four steps of `p.cond.Wait()`, and `close(waitDone)`.
  | helperAdd
  | helperUnlock
  | helperWait
  | helperLock
  | helperClose
  | helperDone
deriving DecidableEq

/-- The process. `holder` is the goroutine that locked the mutex; `notify` are those a broadcast wakes. -/
structure World where
  now : Nat
  pool : Pool
  holder : Option GoId
  notify : List GoId
  points : GoId → Point
  cancelled : Nat → Bool
  helpers : Nat
  fatal : Bool

/-- What a step finds: the reply to the start command, and which ready case a select takes. -/
structure Chance where
  reply : Except StartError Unit
  takeCancelled : Bool

inductive WorldLabel where
  | callAcquire (user : Nat)
  | call (user : Nat) (operation : Operation)
  | run (id : GoId) (chance : Chance)
  | cancel (user : Nat)
  | tick (duration : Nat)

namespace World

def initial (now : Nat) (bus : Option (List StateChanged)) : World :=
  { now := now
    pool := .new now bus
    holder := none
    notify := []
    points := fun _ => .idle
    cancelled := fun _ => false
    helpers := 0
    fatal := false }

variable (world : World)

def goto (id : GoId) (point : Point) : World :=
  { world with points := Function.update world.points id point }

/-- `Lock`: not possible while the mutex is locked. -/
def lockMutex (id : GoId) (point : Point) : Option World :=
  match world.holder with
  | some _ => none
  | none => some { world.goto id point with holder := some id }

/-- `Unlock`, by whichever goroutine. -/
def unlockMutex (id : GoId) (point : Point) : World :=
  match world.holder with
  | some _ => { world.goto id point with holder := none }
  | none => { world with fatal := true }

/-- The first step of `Wait`. -/
def addNotify (id : GoId) (point : Point) : World :=
  { world.goto id point with notify := world.notify ++ [id] }

def runBody (cfg : Config) (id : GoId) (operation : Operation) : World :=
  match operation with
  | .release => { world.goto id (.unlock operation) with pool := world.pool.release world.now }
  | .notifyLoaded =>
    let (pool, wakes) := world.pool.notifyLoaded cfg
    { world.goto id (if wakes then .broadcast operation else .unlock operation) with pool := pool }
  | .notifyUnloaded =>
    { world.goto id (.broadcast operation) with pool := world.pool.notifyUnloaded cfg }
  | .state => world.goto id (.unlock operation)
  | .checkIdle stats =>
    { world.goto id (.unlock operation) with pool := (world.pool.checkIdle cfg world.now stats).1 }

/-- The test of the loop of `waitReady`. A goroutine that waits starts a helper. -/
def checkReady (cfg : Config) (id : GoId) (deadline : Nat) : World :=
  match world.pool.state with
  | .loading =>
    if world.now > deadline then world.goto id (.acquireUnlock (.error (.timedOut cfg.readiness)))
    else
      { (world.goto (.helper world.helpers) .helperAdd).goto id (.readyUnlock deadline world.helpers) with
        helpers := world.helpers + 1 }
  | .loaded => world.goto id (.acquireUnlock (.ok ()))
  | s => world.goto id (.acquireUnlock (.error (.notLoaded s)))

def stepAt (cfg : Config) (id : GoId) (chance : Chance) : Point → Option World
  | .idle => none
  | .lock operation => world.lockMutex id (.body operation)
  | .body operation => some (world.runBody cfg id operation)
  | .broadcast operation => some { world.goto id (.unlock operation) with notify := [] }
  | .unlock _ => some (world.unlockMutex id .idle)
  | .acquireLock => world.lockMutex id .acquireSwitch
  | .acquireSwitch =>
    match world.pool.state with
    | .loaded => some (world.goto id (.acquireUnlock (.ok ())))
    | .loading => some (world.goto id .readyEnter)
    | .unloading => some (world.goto id .stateCheck)
    | .unloaded => some (world.goto id .acquireStart)
  | .acquireStart =>
    match chance.reply with
    | .error cause => some (world.goto id (.acquireUnlock (.error (.loadFailed cause))))
    | .ok _ => some { world.goto id .readyEnter with pool := world.pool.setState cfg .loading }
  | .acquireUnlock _ => some (world.unlockMutex id .idle)
  | .stateCheck =>
    some (world.goto id (if world.pool.state = .unloaded then .acquireStart else .stateAdd))
  | .stateAdd => some (world.addNotify id .stateUnlock)
  | .stateUnlock => some (world.unlockMutex id .stateWait)
  -- A goroutine that has been notified is no longer in the list.
  | .stateWait => if id ∈ world.notify then none else some (world.goto id .stateLock)
  | .stateLock => world.lockMutex id .stateCheck
  | .readyEnter => some (world.goto id (.readyCheck (world.now + cfg.readiness)))
  | .readyCheck deadline => some (world.checkReady cfg id deadline)
  | .readyUnlock deadline helper => some (world.unlockMutex id (.readySelect deadline helper))
  | .readySelect deadline helper =>
    if chance.takeCancelled then
      match id with
      | .user n => if world.cancelled n then some (world.goto id (.readyLock deadline true)) else none
      | .helper _ => none
    else if world.points (.helper helper) = .helperDone then
      some (world.goto id (.readyLock deadline false))
    else none
  | .readyLock deadline cancelled =>
    world.lockMutex id (if cancelled then .acquireUnlock (.error .cancelled) else .readyCheck deadline)
  | .helperAdd => some (world.addNotify id .helperUnlock)
  | .helperUnlock => some (world.unlockMutex id .helperWait)
  | .helperWait => if id ∈ world.notify then none else some (world.goto id .helperLock)
  | .helperLock => world.lockMutex id .helperClose
  | .helperClose => some (world.goto id .helperDone)
  | .helperDone => none

def advance (cfg : Config) (id : GoId) (chance : Chance) : Option World :=
  world.stepAt cfg id chance (world.points id)

def step (cfg : Config) (world : World) (label : WorldLabel) : Option World :=
  if world.fatal then none
  else
    match label with
    | .callAcquire user =>
      -- Each call has a context of its own.
      if world.points (.user user) = .idle then
        some { world.goto (.user user) .acquireLock with
          cancelled := Function.update world.cancelled user false }
      else none
    | .call user operation =>
      if world.points (.user user) = .idle then some (world.goto (.user user) (.lock operation)) else none
    | .run id chance => world.advance cfg id chance
    | .cancel user => some { world with cancelled := Function.update world.cancelled user true }
    | .tick duration => some { world with now := world.now + duration }

end World

/-- The pool, the goroutines that wait inside `Acquire`, and how many calls of `Acquire` that returned nil have
not been matched by a `Release`. -/
structure Usage where
  now : Nat
  pool : Pool
  waiting : Nat → Option Pool.Stage
  held : Nat

inductive UsageLabel where
  | acquire (user : Nat) (reply : Except StartError Unit)
  | resume (user : Nat) (reply : Except StartError Unit)
  | cancel (user : Nat)
  | release
  | notifyLoaded
  | notifyUnloaded
  | checkIdle (stats : Option Stats)
  | tick (duration : Nat)

namespace Usage

def initial (now : Nat) (bus : Option (List StateChanged)) : Usage :=
  { now := now, pool := .new now bus, waiting := fun _ => none, held := 0 }

/-- What an `Acquire` has come to. -/
def progressed (usage : Usage) (user : Nat) : Pool × Pool.Progress → Usage
  | (pool, .returned (.ok _)) =>
    { usage with pool := pool, waiting := Function.update usage.waiting user none, held := usage.held + 1 }
  | (pool, .returned (.error _)) =>
    { usage with pool := pool, waiting := Function.update usage.waiting user none }
  | (pool, .waiting stage) =>
    { usage with pool := pool, waiting := Function.update usage.waiting user (some stage) }

/-- One operation. A waiting goroutine may look at the state again at any time, which covers the times at which
it is woken. A goroutine that waits for the model to be ready stops waiting when its context is
cancelled; one that waits for the end of the unloading does not look at its context. -/
def step (cfg : Config) (usage : Usage) : UsageLabel → Option Usage
  | .acquire user reply =>
    match usage.waiting user with
    | some _ => none
    | none => some (usage.progressed user (usage.pool.acquire cfg usage.now reply))
  | .resume user reply =>
    match usage.waiting user with
    | some stage => some (usage.progressed user (usage.pool.resume cfg usage.now reply stage))
    | none => none
  | .cancel user =>
    match usage.waiting user with
    | some (.ready _) => some { usage with waiting := Function.update usage.waiting user none }
    | _ => none
  | .release => some { usage with pool := usage.pool.release usage.now, held := usage.held - 1 }
  | .notifyLoaded => some { usage with pool := (usage.pool.notifyLoaded cfg).1 }
  | .notifyUnloaded => some { usage with pool := usage.pool.notifyUnloaded cfg }
  | .checkIdle stats => some { usage with pool := (usage.pool.checkIdle cfg usage.now stats).1 }
  | .tick duration => some { usage with now := usage.now + duration }

end Usage

/-! ### Who unlocks the mutex -/

open Foundation World

/-- Between `Lock` and `Unlock`. -/
def Point.Critical : Point → Prop
  | .body _ | .broadcast _ | .unlock _ => True
  | .acquireSwitch | .acquireStart | .acquireUnlock _ => True
  | .stateCheck | .stateAdd | .stateUnlock => True
  | .readyEnter | .readyCheck _ | .readyUnlock _ _ => True
  | _ => False

def Point.Unlocks : Point → Prop
  | .unlock _ | .acquireUnlock _ | .stateUnlock | .readyUnlock _ _ | .helperUnlock => True
  | _ => False

def Point.WantsLock : Point → Prop
  | .lock _ | .acquireLock | .stateLock | .readyLock _ _ | .helperLock => True
  | _ => False

def Point.Helped : Point → Prop
  | .readyUnlock _ _ | .readySelect _ _ | .readyLock _ _ => True
  | .helperAdd | .helperUnlock | .helperWait | .helperLock | .helperClose | .helperDone => True
  | _ => False

def BlockedForever (cfg : Config) (world : World) (id : GoId) : Prop :=
  (world.points id).WantsLock ∧
    ∀ labels next, Machine.run (step cfg) world labels = some next → next.holder ≠ some id

/-- The step starts a helper: the loop of `waitReady` finds a model that is loading before its deadline. -/
def startsHelper (world : World) : WorldLabel → Bool
  | .run id _ =>
    match world.points id with
    | .readyCheck deadline => world.pool.state = .loading ∧ world.now ≤ deadline
    | _ => false
  | _ => false

def NoHelper (world : World) (label : WorldLabel) : Prop := startsHelper world label = false

instance (world : World) : DecidablePred (NoHelper world) :=
  fun label => inferInstanceAs (Decidable (startsHelper world label = false))

structure Disciplined (world : World) : Prop where
  running : world.fatal = false
  unhelped : ∀ id, ¬ (world.points id).Helped
  exclusive : Exclusive Point.Critical world.holder world.points

section Moves

variable {world next : World} {id : GoId} {point : Point}

theorem unhelped_update (unhelped : ∀ id, ¬ (world.points id).Helped) (alone : ¬ point.Helped)
    (points : next.points = Function.update world.points id point) (other : GoId) :
    ¬ (next.points other).Helped := by
  rw [points]
  by_cases same : other = id
  · rw [same, Function.update_self]
    exact alone
  · rw [Function.update_of_ne same]
    exact unhelped other

theorem Disciplined.move (holds : Disciplined world) (id : GoId) (point : Point) (alone : ¬ point.Helped)
    (stays : point.Critical ↔ (world.points id).Critical) (running : next.fatal = world.fatal)
    (holder : next.holder = world.holder) (points : next.points = Function.update world.points id point) :
    Disciplined next where
  running := running.trans holds.running
  unhelped := unhelped_update holds.unhelped alone points
  exclusive := by
    rw [holder, points]
    exact holds.exclusive.move stays

variable {before : Point}

theorem Disciplined.inside (holds : Disciplined world) (here : world.points id = before)
    (point : Point) (critical : before.Critical := by trivial) (enters : point.Critical := by trivial)
    (alone : ¬ point.Helped := by exact not_false) (running : next.fatal = world.fatal := by rfl)
    (holder : next.holder = world.holder := by rfl)
    (points : next.points = Function.update world.points id point := by rfl) : Disciplined next :=
  holds.move id point alone (iff_of_true enters (here ▸ critical)) running holder points

theorem Disciplined.lock (holds : Disciplined world) (locks : world.lockMutex id point = some next)
    (enters : point.Critical) (alone : ¬ point.Helped) : Disciplined next := by
  rw [lockMutex] at locks
  split at locks
  · cases locks
  · rename_i free
    cases locks
    refine ⟨holds.running, unhelped_update holds.unhelped alone rfl, ?_⟩
    have exclusive := holds.exclusive
    rw [free] at exclusive
    exact exclusive.lock enters

theorem Disciplined.unlock (holds : Disciplined world) (here : world.points id = before)
    (critical : before.Critical) (alone : ¬ point.Helped) (leaves : ¬ point.Critical) :
    Disciplined (world.unlockMutex id point) := by
  have held : world.holder = some id := (holds.exclusive id).mp (here ▸ critical)
  rw [unlockMutex, held]
  refine ⟨holds.running, unhelped_update holds.unhelped alone rfl, ?_⟩
  have exclusive := holds.exclusive
  rw [held] at exclusive
  exact exclusive.unlock leaves

end Moves

section Steps

variable {cfg : Config} {world next : World} {id : GoId} {chance : Chance}

theorem runBody_disciplined (holds : Disciplined world) {operation : Operation}
    (here : world.points id = .body operation) : Disciplined (world.runBody cfg id operation) := by
  cases operation with
  | release => exact holds.inside here (.unlock _)
  | notifyLoaded =>
    rw [runBody, Pool.notifyLoaded]
    by_cases loading : world.pool.state = .loading
    · rw [if_pos loading]
      exact holds.inside here (.broadcast _)
    · rw [if_neg loading]
      exact holds.inside here (.unlock _)
  | notifyUnloaded => exact holds.inside here (.broadcast _)
  | state | checkIdle => exact holds.inside here (.unlock _)

theorem checkReady_disciplined (holds : Disciplined world) {deadline : Nat}
    (here : world.points id = .readyCheck deadline)
    (late : world.pool.state = .loading → world.now > deadline) :
    Disciplined (world.checkReady cfg id deadline) := by
  rw [checkReady]
  cases state : world.pool.state with
  | loading =>
    rw [if_pos (late state)]
    exact holds.inside here (.acquireUnlock _)
  | loaded | unloaded | unloading => exact holds.inside here (.acquireUnlock _)

theorem advance_disciplined (holds : Disciplined world) (noHelper : NoHelper world (.run id chance))
    (steps : world.advance cfg id chance = some next) : Disciplined next := by
  have unhelped := holds.unhelped id
  rw [advance] at steps
  cases here : world.points id with rw [here] at steps
  | idle => cases steps
  | lock operation => exact holds.lock steps trivial not_false
  | body operation =>
    cases steps
    exact runBody_disciplined holds here
  | broadcast operation =>
    cases steps
    exact holds.inside here (.unlock operation)
  | unlock operation =>
    cases steps
    exact holds.unlock here trivial not_false not_false
  | acquireLock => exact holds.lock steps trivial not_false
  | acquireSwitch =>
    rw [stepAt] at steps
    split at steps <;> cases steps
    · exact holds.inside here (.acquireUnlock _)
    · exact holds.inside here .readyEnter
    · exact holds.inside here .stateCheck
    · exact holds.inside here .acquireStart
  | acquireStart =>
    rw [stepAt] at steps
    split at steps <;> cases steps
    · exact holds.inside here (.acquireUnlock _)
    · exact holds.inside here .readyEnter
  | acquireUnlock result =>
    cases steps
    exact holds.unlock here trivial not_false not_false
  | stateCheck =>
    cases steps
    split
    · exact holds.inside here .acquireStart
    · exact holds.inside here .stateAdd
  | stateAdd =>
    cases steps
    exact holds.inside here .stateUnlock
  | stateUnlock =>
    cases steps
    exact holds.unlock here trivial not_false not_false
  | stateWait =>
    rw [stepAt] at steps
    split at steps <;> cases steps
    exact holds.move id .stateLock not_false (by rw [here]; exact Iff.rfl) rfl rfl rfl
  | stateLock => exact holds.lock steps trivial not_false
  | readyEnter =>
    cases steps
    exact holds.inside here (.readyCheck _)
  | readyCheck deadline =>
    have late : world.pool.state = .loading → world.now > deadline := by
      simpa [NoHelper, startsHelper, here] using noHelper
    cases steps
    exact checkReady_disciplined holds here late
  | readyUnlock | readySelect | readyLock | helperAdd | helperUnlock | helperWait | helperLock | helperClose
  | helperDone => exact (unhelped (by rw [here]; trivial)).elim

theorem step_disciplined {label : WorldLabel} (holds : Disciplined world) (noHelper : NoHelper world label)
    (steps : step cfg world label = some next) : Disciplined next := by
  rw [step.eq_def, if_neg (by simp [holds.running])] at steps
  cases label with
  | callAcquire user =>
    dsimp only at steps
    split at steps <;> cases steps
    rename_i here
    exact holds.move (.user user) .acquireLock not_false (by rw [here]; exact Iff.rfl) rfl rfl rfl
  | call user operation =>
    dsimp only at steps
    split at steps <;> cases steps
    rename_i here
    exact holds.move (.user user) (.lock operation) not_false (by rw [here]; exact Iff.rfl) rfl rfl rfl
  | run id chance => exact advance_disciplined holds noHelper steps
  | cancel user =>
    cases steps
    exact ⟨holds.running, holds.unhelped, holds.exclusive⟩
  | tick duration =>
    cases steps
    exact ⟨holds.running, holds.unhelped, holds.exclusive⟩

theorem initial_disciplined (now : Nat) (bus : Option (List StateChanged)) :
    Disciplined (initial now bus) :=
  ⟨rfl, fun _ => not_false, fun id => iff_of_false not_false (by simp [initial])⟩

end Steps

/-! ### The holder comes to its unlock -/

section Liveness

variable {cfg : Config} {world next : World} {id : GoId} {point : Point}

def refused : Chance := { reply := .error (.command ""), takeCancelled := false }

structure Inside (world : World) (id : GoId) (point : Point) : Prop where
  running : world.fatal = false
  held : world.holder = some id
  here : world.points id = point

def Frees (cfg : Config) (world : World) (id : GoId) : Prop :=
  ∃ labels next, Machine.run (step cfg) world labels = some next ∧ next.fatal = false ∧
    next.holder = none ∧ ∀ other, other ≠ id → next.points other = world.points other

theorem step_run (running : world.fatal = false) (id : GoId) (chance : Chance) :
    step cfg world (.run id chance) = world.stepAt cfg id chance (world.points id) := by
  rw [step, if_neg (by simp [running]), advance]

theorem Inside.step_run (inside : Inside world id point) (chance : Chance) :
    step cfg world (.run id chance) = world.stepAt cfg id chance point := by
  rw [ModelPool.step_run inside.running, inside.here]

theorem Frees.before {label : WorldLabel} (steps : step cfg world label = some next)
    (others : ∀ other, other ≠ id → next.points other = world.points other) (frees : Frees cfg next id) :
    Frees cfg world id := by
  obtain ⟨labels, last, runs, running, free, still⟩ := frees
  exact ⟨label :: labels, last, Machine.run_cons_eq_some.mpr ⟨next, steps, runs⟩, running, free,
    fun other differs => (still other differs).trans (others other differs)⟩

variable {after : Point} {operation : Operation}

theorem Inside.moves (inside : Inside world id point) (steps : world.stepAt cfg id refused point = some next)
    (frees : Inside next id after → Frees cfg next id) (running : next.fatal = world.fatal)
    (holder : next.holder = world.holder) (points : next.points = Function.update world.points id after) :
    Frees cfg world id := by
  refine .before ((inside.step_run refused).trans steps) (fun other differs => ?_)
    (frees ⟨running.trans inside.running, holder.trans inside.held, ?_⟩)
  · rw [points, Function.update_of_ne differs]
  · rw [points, Function.update_self]

theorem Inside.unlocks (inside : Inside world id point)
    (steps : world.stepAt cfg id refused point = some (world.unlockMutex id after)) : Frees cfg world id := by
  rw [unlockMutex, inside.held] at steps
  refine .before ((inside.step_run refused).trans steps) (fun other differs => ?_)
    ⟨[], _, rfl, inside.running, rfl, fun _ _ => rfl⟩
  exact Function.update_of_ne differs _ _

theorem Inside.unlock (inside : Inside world id (.unlock operation)) : Frees cfg world id :=
  inside.unlocks rfl

theorem Inside.broadcast (inside : Inside world id (.broadcast operation)) : Frees cfg world id :=
  inside.moves rfl Inside.unlock rfl rfl rfl

theorem Inside.body (inside : Inside world id (.body operation)) : Frees cfg world id := by
  have steps : world.stepAt cfg id refused (.body operation) = some (world.runBody cfg id operation) := rfl
  cases operation with
  | release => exact inside.moves steps Inside.unlock rfl rfl rfl
  | notifyLoaded =>
    rw [runBody, Pool.notifyLoaded] at steps
    by_cases loading : world.pool.state = .loading
    · rw [if_pos loading] at steps
      exact inside.moves steps Inside.broadcast rfl rfl rfl
    · rw [if_neg loading] at steps
      exact inside.moves steps Inside.unlock rfl rfl rfl
  | notifyUnloaded => exact inside.moves steps Inside.broadcast rfl rfl rfl
  | state | checkIdle => exact inside.moves steps Inside.unlock rfl rfl rfl

theorem Inside.acquireUnlock {result : Except AcquireError Unit}
    (inside : Inside world id (.acquireUnlock result)) : Frees cfg world id :=
  inside.unlocks rfl

theorem Inside.acquireStart (inside : Inside world id .acquireStart) : Frees cfg world id :=
  inside.moves rfl Inside.acquireUnlock rfl rfl rfl

theorem Inside.stateUnlock (inside : Inside world id .stateUnlock) : Frees cfg world id :=
  inside.unlocks rfl

theorem Inside.stateAdd (inside : Inside world id .stateAdd) : Frees cfg world id :=
  inside.moves rfl Inside.stateUnlock rfl rfl rfl

theorem Inside.stateCheck (inside : Inside world id .stateCheck) : Frees cfg world id := by
  have steps : world.stepAt cfg id refused .stateCheck =
      some (world.goto id (if world.pool.state = .unloaded then .acquireStart else .stateAdd)) := rfl
  by_cases unloaded : world.pool.state = .unloaded
  · rw [if_pos unloaded] at steps
    exact inside.moves steps Inside.acquireStart rfl rfl rfl
  · rw [if_neg unloaded] at steps
    exact inside.moves steps Inside.stateAdd rfl rfl rfl

theorem Inside.readyCheck {deadline : Nat} (inside : Inside world id (.readyCheck deadline)) :
    Frees cfg world id := by
  have late : Inside { world with now := world.now + (deadline + 1) } id (.readyCheck deadline) :=
    ⟨inside.running, inside.held, inside.here⟩
  have ticks : step cfg world (.tick (deadline + 1)) =
      some { world with now := world.now + (deadline + 1) } := by
    rw [step, if_neg (by simp [inside.running])]
  refine .before ticks (fun _ _ => rfl) ?_
  have steps : ∃ result, checkReady { world with now := world.now + (deadline + 1) } cfg id deadline =
      goto { world with now := world.now + (deadline + 1) } id (.acquireUnlock result) := by
    rw [checkReady]
    cases state : world.pool.state with
    | loading => exact ⟨_, if_pos (by simp only; omega)⟩
    | loaded | unloaded | unloading => exact ⟨_, rfl⟩
  obtain ⟨result, steps⟩ := steps
  exact late.moves (congrArg some steps) Inside.acquireUnlock rfl rfl rfl

theorem Inside.readyEnter (inside : Inside world id .readyEnter) : Frees cfg world id :=
  inside.moves rfl Inside.readyCheck rfl rfl rfl

theorem Inside.acquireSwitch (inside : Inside world id .acquireSwitch) : Frees cfg world id := by
  cases state : world.pool.state with
  | loaded =>
    have steps : world.stepAt cfg id refused .acquireSwitch =
        some (world.goto id (.acquireUnlock (.ok ()))) := by
      rw [stepAt, state]
    exact inside.moves steps Inside.acquireUnlock rfl rfl rfl
  | loading =>
    have steps : world.stepAt cfg id refused .acquireSwitch = some (world.goto id .readyEnter) := by
      rw [stepAt, state]
    exact inside.moves steps Inside.readyEnter rfl rfl rfl
  | unloading =>
    have steps : world.stepAt cfg id refused .acquireSwitch = some (world.goto id .stateCheck) := by
      rw [stepAt, state]
    exact inside.moves steps Inside.stateCheck rfl rfl rfl
  | unloaded =>
    have steps : world.stepAt cfg id refused .acquireSwitch = some (world.goto id .acquireStart) := by
      rw [stepAt, state]
    exact inside.moves steps Inside.acquireStart rfl rfl rfl

theorem Disciplined.frees (holds : Disciplined world) (held : world.holder = some id) :
    Frees cfg world id := by
  have critical : (world.points id).Critical := (holds.exclusive id).mpr held
  have unhelped := holds.unhelped id
  have inside : Inside world id (world.points id) := ⟨holds.running, held, rfl⟩
  generalize world.points id = point at critical unhelped inside
  cases point with
  | body operation => exact inside.body
  | broadcast operation => exact inside.broadcast
  | unlock operation => exact inside.unlock
  | acquireSwitch => exact inside.acquireSwitch
  | acquireStart => exact inside.acquireStart
  | acquireUnlock result => exact inside.acquireUnlock
  | stateCheck => exact inside.stateCheck
  | stateAdd => exact inside.stateAdd
  | stateUnlock => exact inside.stateUnlock
  | readyEnter => exact inside.readyEnter
  | readyCheck deadline => exact inside.readyCheck
  | readyUnlock deadline helper => exact absurd trivial unhelped
  | idle | lock | acquireLock | stateWait | stateLock | readySelect | readyLock | helperAdd | helperUnlock
  | helperWait | helperLock | helperClose | helperDone => exact critical.elim

theorem takes_free (running : world.fatal = false) (free : world.holder = none)
    (wants : (world.points id).WantsLock) :
    ∃ next, step cfg world (.run id refused) = some next ∧ next.holder = some id := by
  have locks (point : Point) :
      world.lockMutex id point = some { world.goto id point with holder := some id } := by
    rw [lockMutex, free]
  rw [step_run running]
  cases here : world.points id with
  | lock | acquireLock | stateLock | readyLock | helperLock => exact ⟨_, locks _, rfl⟩
  | idle | body | broadcast | unlock | acquireSwitch | acquireStart | acquireUnlock | stateCheck | stateAdd
  | stateUnlock | stateWait | readyEnter | readyCheck | readyUnlock | readySelect | helperAdd | helperUnlock
  | helperWait | helperClose | helperDone =>
    rw [here] at wants
    exact wants.elim

theorem Disciplined.not_blockedForever (holds : Disciplined world) (id : GoId) :
    ¬ BlockedForever cfg world id := by
  rintro ⟨wants, never⟩
  cases holder : world.holder with
  | none =>
    obtain ⟨next, steps, taken⟩ := takes_free holds.running holder wants
    exact never [.run id refused] next (Machine.run_cons_eq_some.mpr ⟨next, steps, rfl⟩) taken
  | some other =>
    have differs : id ≠ other := by
      rintro rfl
      exact never [] world rfl holder
    obtain ⟨labels, middle, runs, running, free, still⟩ := holds.frees holder
    obtain ⟨next, steps, taken⟩ := takes_free running free ((still id differs).symm ▸ wants)
    exact never (labels ++ [.run id refused]) next
      (Machine.run_append_eq_some.mpr ⟨middle, runs, Machine.run_cons_eq_some.mpr ⟨next, steps, rfl⟩⟩) taken

end Liveness

theorem Point.Unlocks.critical {point : Point} (unlocks : point.Unlocks) (unhelped : ¬ point.Helped) :
    point.Critical := by
  cases point with
  | unlock | acquireUnlock | stateUnlock => trivial
  | readyUnlock | helperUnlock => exact absurd trivial unhelped
  | idle | lock | body | broadcast | acquireLock | acquireSwitch | acquireStart | stateCheck | stateAdd
  | stateWait | stateLock | readyEnter | readyCheck | readySelect | readyLock | helperAdd | helperWait
  | helperLock | helperClose | helperDone => exact unlocks.elim

/-- In every run in which `waitReady` starts no helper, nobody unlocks a mutex another goroutine holds or nobody
holds, and whoever waits for the mutex can still get it. -/
theorem lock_discipline_of_no_helper (cfg : Config) (start : Nat) (bus : Option (List StateChanged))
    {labels : List WorldLabel} {world : World}
    (noHelper : Machine.Throughout (World.step cfg) NoHelper (World.initial start bus) labels)
    (runs : Machine.run (World.step cfg) (World.initial start bus) labels = some world) :
    world.fatal = false ∧ (∀ id, (world.points id).Unlocks → world.holder = some id) ∧
      ∀ id, ¬ BlockedForever cfg world id := by
  have kept : ∀ world label next, Disciplined world → NoHelper world label →
      step cfg world label = some next → Disciplined next :=
    fun _ _ _ => step_disciplined
  have disciplined := Machine.run_invariant kept (initial_disciplined start bus) noHelper runs
  refine ⟨disciplined.running, fun id unlocks => ?_, disciplined.not_blockedForever⟩
  exact (disciplined.exclusive id).mp (unlocks.critical (disciplined.unhelped id))

def accepted : Chance := { reply := .ok (), takeCancelled := false }

def defaultTimes : Config :=
  { serviceName := ""
    ctlSocket := ""
    idleTimeout := 0
    warmPool := false
    memoryMargin := 0
    readinessTimeout := 0 }

def runs (id : GoId) (count : Nat) : List WorldLabel := List.replicate count (.run id accepted)

/-- The first `Acquire` sends the start command and comes to its loop. -/
def firstAcquire : List WorldLabel := .callAcquire 0 :: runs (.user 0) 4

/-- The goroutine is late for its loop, the model is reported loaded, and another one acquires it. -/
def lateAcquire : List WorldLabel :=
  firstAcquire ++ .tick 120000000001 :: runs (.user 0) 2 ++ .call 1 .notifyLoaded :: runs (.user 1) 4 ++
    .callAcquire 2 :: runs (.user 2) 2

/-- The `Acquire` of a loaded model unlocks what it has locked. -/
theorem lateAcquire_disciplined :
    ∃ world, Machine.run (World.step defaultTimes) (World.initial 0 none) lateAcquire = some world ∧
      world.pool.state = .loaded ∧ world.points (.user 2) = .acquireUnlock (.ok ()) ∧
      world.holder = some (.user 2) := by
  have noHelper : Machine.Throughout (step defaultTimes) NoHelper (initial 0 none) lateAcquire := by
    decide
  have reached : (Machine.run (step defaultTimes) (initial 0 none) lateAcquire).map
      (fun world => (world.pool.state, world.points (.user 2))) = some (.loaded, .acquireUnlock (.ok ())) := by
    decide
  obtain ⟨world, runs, here⟩ := Option.map_eq_some_iff.mp reached
  obtain ⟨state, point⟩ := Prod.mk.inj here
  have disciplined := lock_discipline_of_no_helper defaultTimes 0 none noHelper runs
  exact ⟨world, runs, state, point, disciplined.2.1 (.user 2) (by rw [point]; trivial)⟩

/-- The helper of the first `Acquire` is about to unlock the mutex, which the goroutine that started it holds.
That goroutine's own unlock is then fatal. -/
theorem helper_unlocks_for_another :
    ∃ world, Machine.run (World.step defaultTimes) (World.initial 0 none)
        (firstAcquire ++ runs (.user 0) 1 ++ runs (.helper 0) 1) = some world ∧
      world.points (.helper 0) = .helperUnlock ∧ world.holder = some (.user 0) ∧
      ∃ dead, Machine.run (World.step defaultTimes) world (runs (.helper 0) 1 ++ runs (.user 0) 1) = some dead ∧
        dead.fatal = true := by
  refine ⟨_, rfl, ?_, ?_, _, rfl, ?_⟩ <;> decide

/-! ### Idle checks -/

/-- Less than the idle timeout has passed since the last `Release`, or since the pool was made. -/
def Usage.Recent (cfg : Config) (usage : Usage) : Prop :=
  usage.now - usage.pool.lastRelease < cfg.idleTimeout

/-- While somebody holds the model, time does not come to an idle timeout after the last `Release`; and nobody
is given the model that late. -/
def Timely (cfg : Config) (usage : Usage) : UsageLabel → Prop
  | .tick duration =>
    0 < usage.held → usage.now + duration - usage.pool.lastRelease < cfg.idleTimeout
  | .acquire _ _ => usage.pool.state = .loaded → usage.Recent cfg
  | .resume _ _ => usage.pool.state = .loaded → usage.Recent cfg
  | _ => True

instance (cfg : Config) (usage : Usage) : DecidablePred (Timely cfg usage)
  | .tick _ => inferInstanceAs (Decidable (_ → _))
  | .acquire _ _ => inferInstanceAs (Decidable (_ → _ < _))
  | .resume _ _ => inferInstanceAs (Decidable (_ → _ < _))
  | .cancel _ => isTrue trivial
  | .release => isTrue trivial
  | .notifyLoaded => isTrue trivial
  | .notifyUnloaded => isTrue trivial
  | .checkIdle _ => isTrue trivial

/-- A model that is held was released, or made, less than an idle timeout ago. -/
def HeldRecently (cfg : Config) (usage : Usage) : Prop :=
  0 < usage.held → usage.Recent cfg

section Operations

variable (cfg : Config) (pool : Pool)

@[simp] theorem setState_lastRelease (s : ModelState) : (pool.setState cfg s).lastRelease = pool.lastRelease := by
  rw [Pool.setState]
  split <;> rfl

theorem load_spec (now : Nat) (reply : Except StartError Unit) :
    (pool.load cfg now reply).1.lastRelease = pool.lastRelease ∧
      (pool.load cfg now reply).2 ≠ .returned (.ok ()) := by
  cases reply with
  | error cause => exact ⟨rfl, by simp [Pool.load]⟩
  | ok _ => exact ⟨setState_lastRelease cfg pool _, by simp [Pool.load]⟩

/-- `Acquire` leaves the time of the last `Release`, and returns nil only while the model is loaded. -/
theorem acquire_spec (now : Nat) (reply : Except StartError Unit) :
    (pool.acquire cfg now reply).1.lastRelease = pool.lastRelease ∧
      ((pool.acquire cfg now reply).2 = .returned (.ok ()) → pool.state = .loaded) := by
  rw [Pool.acquire]
  cases state : pool.state with
  | unloaded =>
    obtain ⟨kept, waits⟩ := load_spec cfg pool now reply
    exact ⟨kept, fun returned => absurd returned waits⟩
  | loading => simp
  | loaded => simp
  | unloading => simp

theorem resume_spec (now : Nat) (reply : Except StartError Unit) (stage : Pool.Stage) :
    (pool.resume cfg now reply stage).1.lastRelease = pool.lastRelease ∧
      ((pool.resume cfg now reply stage).2 = .returned (.ok ()) → pool.state = .loaded) := by
  cases stage with
  | unloading =>
    rw [Pool.resume]
    split
    · obtain ⟨kept, waits⟩ := load_spec cfg pool now reply
      exact ⟨kept, fun returned => absurd returned waits⟩
    · simp
  | ready deadline =>
    rw [Pool.resume]
    cases state : pool.state with
    | loading =>
      dsimp only
      split <;> simp
    | unloaded => simp
    | loaded => simp
    | unloading => simp

theorem notifyLoaded_lastRelease : (pool.notifyLoaded cfg).1.lastRelease = pool.lastRelease := by
  rw [Pool.notifyLoaded]
  split <;> simp

theorem checkIdle_lastRelease (now : Nat) (stats : Option Stats) :
    (pool.checkIdle cfg now stats).1.lastRelease = pool.lastRelease := by
  rw [Pool.checkIdle]
  split_ifs <;> simp

end Operations

section Steps

variable {cfg : Config} {usage next : Usage}

theorem Usage.Recent.keep (recent : usage.Recent cfg) (now : next.now = usage.now)
    (kept : next.pool.lastRelease = usage.pool.lastRelease) : next.Recent cfg := by
  rw [Usage.Recent, now, kept]
  exact recent

theorem progressed_heldRecently {user : Nat} {outcome : Pool × Pool.Progress}
    (holds : HeldRecently cfg usage) (kept : outcome.1.lastRelease = usage.pool.lastRelease)
    (recent : outcome.2 = .returned (.ok ()) → usage.Recent cfg) :
    HeldRecently cfg (usage.progressed user outcome) := by
  obtain ⟨pool, progress⟩ := outcome
  cases progress with
  | waiting stage => exact fun held => (holds held).keep rfl kept
  | returned result =>
    cases result with
    | error e => exact fun held => (holds held).keep rfl kept
    | ok _ => exact fun _ => (recent rfl).keep rfl kept

theorem step_heldRecently {label : UsageLabel} (holds : HeldRecently cfg usage)
    (timely : Timely cfg usage label) (steps : usage.step cfg label = some next) :
    HeldRecently cfg next := by
  cases label with
  | acquire user reply =>
    rw [Usage.step] at steps
    split at steps
    · cases steps
    · cases steps
      obtain ⟨kept, loaded⟩ := acquire_spec cfg usage.pool usage.now reply
      exact progressed_heldRecently holds kept fun returned => timely (loaded returned)
  | resume user reply =>
    rw [Usage.step] at steps
    split at steps
    · rename_i stage _
      cases steps
      obtain ⟨kept, loaded⟩ := resume_spec cfg usage.pool usage.now reply stage
      exact progressed_heldRecently holds kept fun returned => timely (loaded returned)
    · cases steps
  | cancel user =>
    rw [Usage.step] at steps
    split at steps
    · cases steps
      exact holds
    · cases steps
  | release =>
    cases steps
    intro held
    -- Somebody else still holds the model, so the idle timeout is not zero.
    have before : usage.Recent cfg := holds (Nat.lt_of_lt_of_le held (Nat.sub_le _ _))
    show usage.now - usage.now < cfg.idleTimeout
    rw [Nat.sub_self]
    exact Nat.zero_lt_of_lt before
  | notifyLoaded =>
    cases steps
    exact fun held => (holds held).keep rfl (notifyLoaded_lastRelease cfg usage.pool)
  | notifyUnloaded =>
    cases steps
    exact fun held => (holds held).keep rfl (setState_lastRelease cfg usage.pool .unloaded)
  | checkIdle stats =>
    cases steps
    exact fun held => (holds held).keep rfl (checkIdle_lastRelease cfg usage.pool usage.now stats)
  | tick duration =>
    cases steps
    exact timely

end Steps

/-- In every run in which the model is released in time, an idle check that sends the stop command finds every
`Acquire` that returned nil matched by a `Release`. -/
theorem stop_unused_of_timely (cfg : Config) (start : Nat) (bus : Option (List StateChanged))
    {labels : List UsageLabel} {usage : Usage}
    (timely : Machine.Throughout (Usage.step cfg) (Timely cfg) (Usage.initial start bus) labels)
    (runs : Machine.run (Usage.step cfg) (Usage.initial start bus) labels = some usage) (stats : Option Stats)
    (sends : (usage.pool.checkIdle cfg usage.now stats).2 ≠ none) : usage.held = 0 := by
  have kept : ∀ usage label next, HeldRecently cfg usage → Timely cfg usage label →
      usage.step cfg label = some next → HeldRecently cfg next :=
    fun _ _ _ => step_heldRecently
  have initially : HeldRecently cfg (Usage.initial start bus) := fun held => absurd held (Nat.lt_irrefl 0)
  have recently := Machine.run_invariant kept initially timely runs
  by_contra held
  apply sends
  have recent : usage.now - usage.pool.lastRelease < cfg.idleTimeout := recently (Nat.pos_of_ne_zero held)
  rw [Pool.checkIdle, if_pos recent]
  split <;> rfl

def shortIdle : Config :=
  { serviceName := ""
    ctlSocket := ""
    idleTimeout := 10
    warmPool := false
    memoryMargin := 0
    readinessTimeout := 5 }

def inference (duration : Nat) : List UsageLabel :=
  [.acquire 0 (.ok ()), .notifyLoaded, .resume 0 (.ok ()), .tick duration]

/-- Released nine after it was acquired, the model is not in use when it is stopped. -/
theorem short_inference_unused :
    ∃ usage, Machine.run (Usage.step shortIdle) (Usage.initial 0 none)
        (inference 9 ++ [.release, .tick 10]) = some usage ∧
      (usage.pool.checkIdle shortIdle usage.now none).2 = some shortIdle.stop ∧ usage.held = 0 := by
  have timely : Machine.Throughout (Usage.step shortIdle) (Timely shortIdle) (Usage.initial 0 none)
      (inference 9 ++ [.release, .tick 10]) := by
    decide
  have stops : (Machine.run (Usage.step shortIdle) (Usage.initial 0 none)
      (inference 9 ++ [.release, .tick 10])).map
        (fun usage => (usage.pool.checkIdle shortIdle usage.now none).2) = some (some shortIdle.stop) := by
    decide
  obtain ⟨usage, runs, sends⟩ := Option.map_eq_some_iff.mp stops
  exact ⟨usage, runs, sends,
    stop_unused_of_timely shortIdle 0 none timely runs none (by rw [sends]; simp)⟩

/-- After ten the idle check stops the model that is in use. -/
theorem long_inference_stopped :
    ∃ usage, Machine.run (Usage.step shortIdle) (Usage.initial 0 none) (inference 10) = some usage ∧
      (usage.pool.checkIdle shortIdle usage.now none).2 = some shortIdle.stop ∧ usage.held = 1 := by
  refine ⟨_, rfl, ?_, ?_⟩ <;> decide

end NuraOS.ModelPool
