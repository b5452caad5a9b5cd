/-
Purpose: When the idle monitor stops a unit only in idle times, and when a reported status can be trusted.
-/
import NuraOS.Lifecycle.Supervisor

namespace NuraOS.Lifecycle

open NuraOS.Services Foundation.Machine List

variable {u : ServiceUnit} {s next : Activation}

/-- The client that `WaitFirstConnection` has accepted and not recorded. -/
@[simp] def Activator.held : Activator → List Int
  | .touching connected => [connected]
  | _ => []

/-- When the clients connected that the `Holder` has not recorded. -/
@[simp, grind] def Activation.unrecorded (s : Activation) : List Int :=
  s.pending ++ s.activator.held ++ s.served

@[simp, grind] def Activation.clients (s : Activation) : List Int :=
  s.unrecorded ++ s.seen

@[simp] def Monitor.Firing : Monitor → Prop
  | .reading | .stopping _ .marking | .stopping _ .reading => True
  | _ => False

instance : DecidablePred Monitor.Firing
  | .reading | .stopping _ .marking | .stopping _ .reading => .isTrue trivial
  | .off | .ticking | .stopping _ (.grace _) | .stopping _ .cancelling | .stopping _ .finishing
  | .stopping _ .returned | .clearing | .finishing | .resetting => .isFalse id

/-- What an event may not meet: a tick that finds the `Holder` idle although a client it has not
recorded came within the timeout; a client that comes between such a tick and SIGTERM. -/
def Activation.Accounted (u : ServiceUnit) (s : Activation) : Event → Prop
  | .tick => u.socketActivation.idleTimeout ≤ s.now - s.lastActivity →
      ∀ connected ∈ s.unrecorded, connected + u.socketActivation.idleTimeout ≤ s.now
  | .connect => ¬ s.monitor.Firing
  | _ => True

/-- The `Holder`'s record against the clients of the socket. -/
structure Activation.Watching (u : ServiceUnit) (s : Activation) : Prop where
  current : s.lastActivity ≤ s.now
  recorded : ∀ connected ∈ s.seen, connected ≤ s.lastActivity
  arrived : ∀ connected ∈ s.clients, connected ≤ s.now
  idle : s.monitor.Firing → ∀ connected ∈ s.clients,
    connected + u.socketActivation.idleTimeout ≤ s.now

theorem Activation.Watching.carry (watching : s.Watching u) (now : next.now = s.now)
    (clients : ∀ connected ∈ next.clients, connected ∈ s.clients)
    (activity : next.lastActivity = s.now ∨ next.lastActivity = s.lastActivity ∧ next.seen = s.seen)
    (seen : ∀ connected ∈ next.seen, connected ∈ s.clients)
    (monitor : next.monitor.Firing → s.monitor.Firing) : next.Watching u := by
  have arrived : ∀ connected ∈ next.clients, connected ≤ next.now := by
    intro connected member
    rw [now]
    exact watching.arrived connected (clients connected member)
  refine ⟨?_, fun connected member => ?_, arrived, fun firing connected member => ?_⟩
  · rcases activity with touched | ⟨same, -⟩
    · rw [touched, now]
    · rw [same, now]
      exact watching.current
  · rcases activity with touched | ⟨same, sameSeen⟩
    · rw [touched]
      exact watching.arrived connected (seen connected member)
    · rw [same]
      exact watching.recorded connected (sameSeen ▸ member)
  · rw [now]
    exact watching.idle (monitor firing) connected (clients connected member)

theorem Activation.Watching.aside (watching : s.Watching u) (now : next.now = s.now)
    (clients : next.clients = s.clients) (activity : next.lastActivity = s.lastActivity)
    (seen : next.seen = s.seen) (monitor : next.monitor.Firing → s.monitor.Firing) :
    next.Watching u :=
  watching.carry now (clients ▸ fun _ member => member) (.inr ⟨activity, seen⟩)
    (seen ▸ fun _ member => mem_append_right _ member) monitor

theorem Activation.Watching.activate (watching : s.Watching u) (steps : s.activate u = some next) :
    next.Watching u := by
  unfold Activation.activate at steps
  cases activator : s.activator <;> simp only [activator] at steps
  case binding =>
    cases steps
    refine watching.carry rfl ?_ (.inl rfl) (fun _ member => mem_append_right _ member) ?_
    · simp [activator]
    · dsimp only
      split <;> exact False.elim
  case touching connected =>
    cases steps
    refine watching.carry rfl ?_ (.inl rfl) ?_ id
    all_goals grind [Activator.held]
  case touchingAgain =>
    cases steps
    refine watching.carry rfl ?_ (.inl rfl) (fun _ member => mem_append_right _ member) id
    simp [activator]
  case accepting =>
    cases pending : s.pending with
    | nil => simp [pending] at steps
    | cons connected rest =>
      simp only [pending] at steps
      cases steps
      refine watching.carry rfl ?_ (.inr ⟨rfl, rfl⟩)
        (fun _ member => mem_append_right _ member) id
      grind [Activator.held]
  case checking | launching | storing | awaiting | waitingOn | returned =>
    repeat' split at steps
    all_goals cases steps
    all_goals
      refine watching.aside rfl ?_ rfl rfl id
      simp [activator]

theorem Activation.Watching.onIdle {timeout : Bool} (watching : s.Watching u)
    (steps : s.onIdle timeout = some next) : next.Watching u := by
  unfold Activation.onIdle at steps
  cases monitor : s.monitor <;> simp only [monitor] at steps
  case reading =>
    split at steps <;> cases steps
    · exact watching.aside rfl rfl rfl rfl False.elim
    · exact watching.aside rfl rfl rfl rfl fun _ => by simp [monitor]
  case stopping run phase =>
    cases taken : phase.next (s.command run) s.hasExited timeout with
    | none => simp [taken] at steps
    | some later =>
      simp only [taken] at steps
      cases steps
      refine watching.aside rfl rfl rfl rfl fun firing => ?_
      -- Of the phases only the first is followed by one in which the monitor still fires.
      cases phase with
      | marking | reading => simp [monitor]
      | grace process =>
        simp only [StopPhase.next, Option.ite_none_right_eq_some, Option.some.injEq] at taken
        simp [← taken.2] at firing
      | cancelling | finishing =>
        cases taken
        simp at firing
      | returned => cases taken
  case clearing | finishing =>
    cases steps
    exact watching.aside rfl rfl rfl rfl False.elim
  case resetting =>
    cases steps
    exact watching.carry rfl (fun _ member => member) (.inl rfl)
      (fun _ member => mem_append_right _ member) False.elim
  case off | ticking => cases steps

theorem Activation.Watching.step {event : Event} (watching : s.Watching u)
    (accounted : s.Accounted u event) (steps : s.step u event = some next) : next.Watching u := by
  cases event with
  | wait seconds =>
    cases steps
    refine ⟨?_, watching.recorded, fun connected member => ?_, fun firing connected member => ?_⟩
    · have := watching.current
      dsimp only
      omega
    · have := watching.arrived connected member
      dsimp only
      omega
    · have := watching.idle firing connected member
      dsimp only
      omega
  | connect =>
    cases steps
    refine ⟨watching.current, watching.recorded, fun connected member => ?_,
      fun firing => absurd firing accounted⟩
    have known : connected = s.now ∨ connected ∈ s.clients := by grind
    rcases known with rfl | earlier
    · exact le_rfl
    · exact watching.arrived connected earlier
  | serve =>
    simp only [Activation.step, Option.ite_none_right_eq_some] at steps
    obtain ⟨-, steps⟩ := steps
    cases pending : s.pending with
    | nil => simp [pending] at steps
    | cons connected rest =>
      simp only [pending] at steps
      cases steps
      refine watching.carry rfl ?_ (.inr ⟨rfl, rfl⟩)
        (fun _ member => mem_append_right _ member) id
      simp only [Activation.clients, Activation.unrecorded, pending]
      grind
  | activate => exact watching.activate steps
  | monitor timeout => exact watching.onIdle steps
  | tick =>
    simp only [Activation.step] at steps
    split at steps
    case h_2 => cases steps
    split at steps <;> cases steps
    case h_1.isFalse.refl => exact watching
    case h_1.isTrue.refl passed =>
      refine ⟨watching.current, watching.recorded, watching.arrived, fun _ connected member => ?_⟩
      rcases mem_append.mp member with unrecorded | seen
      · exact accounted passed connected unrecorded
      · have := watching.recorded connected seen
        dsimp only
        omega
  | monitorDone =>
    simp only [Activation.step] at steps
    split at steps
    case h_2 => cases steps
    split at steps <;> cases steps
    exact watching.aside rfl rfl rfl rfl False.elim
  | activateError =>
    simp only [Activation.step] at steps
    split at steps
    case h_3 => cases steps
    all_goals
      rename_i activator
      cases steps
      refine watching.aside rfl ?_ rfl rfl id
      simp [activator]
  | run =>
    obtain ⟨-, -, -, -, -, rfl⟩ := Activation.step_run_iff.mp steps
    exact watching.aside rfl rfl rfl rfl id
  | caller =>
    obtain ⟨-, -, -, -, rfl⟩ := Activation.step_caller_iff.mp steps
    exact watching.aside rfl rfl rfl rfl id
  | exits | call | cancelRoot =>
    simp only [Activation.step] at steps
    repeat' split at steps
    all_goals cases steps
    all_goals exact watching.aside rfl rfl rfl rfl id

theorem Activation.watching_planned (u : ServiceUnit) (start : Int) :
    (Activation.planned u start).Watching u where
  current := le_rfl
  recorded := fun _ member => by cases member
  arrived := fun _ member => by cases member
  idle := False.elim

/-- In a run in which no tick takes a socket for idle that has had a client unknown to the `Holder`
within the timeout, and in which no client comes between such a tick and SIGTERM, the unit is
idle-stopped only when no client has connected for the timeout. -/
theorem idle_stop_idle (u : ServiceUnit) (start : Int) {events : List Event} {s : Activation}
    (accounted : Throughout (Activation.step u) (Activation.Accounted u) (.planned u start) events)
    (runs : Foundation.Machine.run (Activation.step u) (.planned u start) events = some s)
    {run : Nat} {phase : StopPhase} (stops : s.monitor = .stopping run phase)
    (before : phase = .marking ∨ phase = .reading) :
    ∀ connected ∈ s.clients, connected + u.socketActivation.idleTimeout ≤ s.now := by
  have watching : s.Watching u :=
    run_invariant (fun _ _ _ watching met steps => watching.step met steps)
      (Activation.watching_planned u start) accounted runs
  apply watching.idle
  rw [stops]
  rcases before with rfl | rfl
  · trivial
  · trivial

instance (s : Activation) : DecidablePred (s.Accounted u)
  | .tick => inferInstanceAs (Decidable (_ → ∀ connected ∈ s.unrecorded, _ ≤ s.now))
  | .connect => inferInstanceAs (Decidable (¬ s.monitor.Firing))
  | .wait _ | .serve | .activate | .activateError | .run _ _ | .exits _ | .monitorDone | .monitor _
  | .call _ | .caller _ _ | .cancelRoot => .isTrue trivial

def cache : ServiceUnit :=
  { ServiceUnit.plain "cache" [] [] with socketActivation := { enabled := true, idleTimeout := 10 } }

/-- Ten seconds without a client, and the monitor on its way to `stop`. -/
def quietTenSeconds : List Event :=
  firstClient ++ [.wait 10, .tick, .monitor false]

theorem quietTenSeconds_idle :
    ∃ s, Foundation.Machine.run (Activation.step cache) (.planned cache 0) quietTenSeconds = some s ∧
      s.monitor = .stopping 0 .marking ∧ s.clients = [0] ∧
      ∀ connected ∈ s.clients, connected + cache.socketActivation.idleTimeout ≤ s.now := by
  obtain ⟨s, runs, stops, clients⟩ :=
    exists_run (P := fun s => s.monitor = .stopping 0 .marking ∧ s.clients = [0])
      (show (Foundation.Machine.run (Activation.step cache) (.planned cache 0) quietTenSeconds).any _ = true
        by decide +kernel)
  exact ⟨s, runs, stops, clients, idle_stop_idle cache 0 (by decide +kernel) runs stops (.inl rfl)⟩

def stopAfterClient : List Event :=
  firstClient ++ [.wait 9, .connect, .serve, .wait 1, .tick, .monitor false, .monitor false]

/-- The monitor stops the unit one second after a client has connected. -/
theorem stopAfterClient_not_idle :
    ∃ s next, Foundation.Machine.run (Activation.step cache) (.planned cache 0) stopAfterClient = some s ∧
      s.monitor = .stopping 0 .reading ∧ s.step cache (.monitor false) = some next ∧
      next.monitor = .stopping 0 (.grace 0) ∧
      ¬ ∀ connected ∈ s.clients, connected + cache.socketActivation.idleTimeout ≤ s.now := by
  obtain ⟨s, runs, monitor, goesOn, busy⟩ := exists_run (P := fun s =>
    s.monitor = .stopping 0 .reading ∧
      (s.step cache (.monitor false)).any (·.monitor = .stopping 0 (.grace 0)) = true ∧
      ¬ ∀ connected ∈ s.clients, connected + cache.socketActivation.idleTimeout ≤ s.now)
    (show (Foundation.Machine.run (Activation.step cache) (.planned cache 0) stopAfterClient).any _ = true
      by decide +kernel)
  obtain ⟨next, steps, sends⟩ := (Option.any_eq_true _ _).mp goesOn
  exact ⟨s, next, runs, monitor, steps, of_decide_eq_true sends, busy⟩

open Activation ServiceStatus

@[simp] def State.Reported : State → Prop
  | .ready | .running => True
  | _ => False

@[simp] def State.Up : State → Prop
  | .starting | .ready | .running => True
  | _ => False

instance : DecidablePred State.Reported
  | .ready | .running => .isTrue trivial
  | .inactive | .starting | .stopping | .failed => .isFalse id

instance : DecidablePred State.Up
  | .starting | .ready | .running => .isTrue trivial
  | .inactive | .stopping | .failed => .isFalse id

variable {state dst : State} {status : ServiceStatus} {reason : String}

theorem State.Reported.up (reported : state.Reported) : state.Up := by
  cases state <;> trivial

theorem ServiceStatus.up_of_move
    (other : dst ≠ .starting) (up : (status.move dst reason).state.Up) : status.state.Up := by
  rw [state_move] at up
  split at up
  · rename_i valid
    generalize status.state = state at valid ⊢
    cases dst with
    | starting => exact absurd rfl other
    | inactive | stopping | failed => exact up.elim
    | ready | running => cases state <;> trivial
  · exact up

theorem ServiceStatus.not_up_of_down
    (down : dst = .failed ∨ dst = .stopping) : ¬ (status.move dst reason).state.Up := by
  rw [state_move]
  generalize status.state = state
  rcases down with rfl | rfl <;> cases state <;> exact id

theorem StopPhase.up_of_report {phase : StopPhase} {reason : StopReason}
    (up : (phase.report reason status).state.Up) : status.state.Up ∧ phase ≠ .marking := by
  cases phase with
  | marking => exact absurd up (not_up_of_down (.inr rfl))
  | finishing => exact ⟨up_of_move (by simp) up, by simp⟩
  | reading | grace | cancelling | returned => exact ⟨up, by simp⟩

/-! ### Socket-activated units -/

section Activated

variable {u : ServiceUnit} {s next : Activation}

/-- The run has a live process, or its goroutine is about to start one or to report a failure. -/
def SocketRun.Carries (run : SocketRun) : Prop :=
  run.process = .live ∨
    match run.stage with
    | .opening | .starting | .forking | .failing _ => True
    | _ => False

/-- What an event may not be: the exit of a process while the unit is on its way up, or up. -/
def Activation.Foreseen (s : Activation) : Event → Prop
  | .exits _ => ¬ s.status.state.Up
  | _ => True

def Carried (runs : List SocketRun) : Prop :=
  ∃ (index : Nat) (run : SocketRun), runs[index]? = some run ∧ run.Carries

def Activation.Carried (s : Activation) : Prop :=
  s.status.state.Up → Lifecycle.Carried s.runs

theorem SocketRun.carries_of_next {done : Bool} {pid : Nat} {run after : SocketRun}
    {status reported : ServiceStatus} {error : Option String}
    (steps : run.next done pid status error = some (after, reported)) (up : reported.state.Up) :
    after.Carries ∨ status.state.Up ∧ (run.Carries → after.Carries) := by
  cases error with
  | some text =>
    simp only [SocketRun.next] at steps
    split at steps <;> cases steps <;> exact .inl (.inr trivial)
  | none =>
    simp only [SocketRun.next] at steps
    cases stage : run.stage <;> simp only [stage] at steps
    case entering | opening =>
      cases steps
      exact .inl (.inr trivial)
    case starting =>
      cases steps
      refine .inl (.inr ?_)
      cases done <;> trivial
    case forking =>
      cases steps
      exact .inl (.inl rfl)
    case failing =>
      cases steps
      exact absurd up (not_up_of_down (.inl rfl))
    case waiting =>
      split at steps <;> cases steps
      refine .inr ⟨up, ?_⟩
      simp [SocketRun.Carries, stage]
    case recording | cancelling =>
      cases steps
      refine .inr ⟨up, ?_⟩
      simp [SocketRun.Carries, stage]
    case readying | settling | leaving =>
      cases steps
      refine .inr ⟨up_of_move (by simp) up, ?_⟩
      simp [SocketRun.Carries, stage]
    case returned => cases steps

theorem Activation.Carried.aside (carried : s.Carried) (runs : next.runs = s.runs)
    (status : next.status.state.Up → s.status.state.Up) : next.Carried := by
  intro up
  rw [runs]
  exact carried (status up)

theorem Activation.carried_cancelRun {index : Nat} (carried : Lifecycle.Carried s.runs) :
    Lifecycle.Carried (s.cancelRun index) := by
  obtain ⟨other, run, here, carries⟩ := carried
  by_cases same : index = other
  · exact ⟨other, { run with cancelled := true }, by simp [cancelRun, same, here], carries⟩
  · exact ⟨other, run, by simp [cancelRun, same, here], carries⟩

theorem Activation.Carried.stop {phase : StopPhase} {reason : StopReason} {run : Nat}
    (carried : s.Carried) (status : next.status = phase.report reason s.status)
    (runs : next.runs = if phase = .cancelling then s.cancelRun run else s.runs) : next.Carried := by
  intro up
  rw [status] at up
  have before := carried (StopPhase.up_of_report up).1
  rw [runs]
  split
  · exact carried_cancelRun before
  · exact before

theorem Activation.Carried.step {event : Event} (carried : s.Carried) (foreseen : s.Foreseen event)
    (steps : s.step u event = some next) : next.Carried := by
  cases event with
  | run index error =>
    obtain ⟨run, after, status, here, taken, rfl⟩ := step_run_iff.mp steps
    have bound : index < s.runs.length := (List.getElem?_eq_some_iff.mp here).1
    intro up
    rcases SocketRun.carries_of_next taken up with carries | ⟨before, keeps⟩
    · exact ⟨index, after, by simp [bound], carries⟩
    · obtain ⟨other, carrier, there, carries⟩ := carried before
      by_cases same : index = other
      · subst same
        rw [here] at there
        cases there
        exact ⟨index, after, by simp [bound], keeps carries⟩
      · exact ⟨other, carrier, by simp [same, there], carries⟩
  | exits index =>
    simp only [Activation.step] at steps
    split at steps
    · split at steps <;> cases steps
      exact fun up => absurd up foreseen
    · cases steps
  | caller index timeout =>
    obtain ⟨caller, phase, -, -, rfl⟩ := Activation.step_caller_iff.mp steps
    exact carried.stop rfl rfl
  | monitor timeout =>
    simp only [Activation.step, Activation.onIdle] at steps
    cases monitor : s.monitor <;> simp only [monitor] at steps
    case stopping run phase =>
      split at steps <;> cases steps
      exact carried.stop rfl rfl
    case reading => split at steps <;> cases steps <;> exact carried
    case finishing =>
      cases steps
      exact carried.aside rfl fun up => (StopPhase.up_of_report up).1
    case clearing | resetting => cases steps; exact carried
    case off | ticking => cases steps
  | activate =>
    simp only [Activation.step, Activation.activate] at steps
    cases activator : s.activator <;> simp only [activator] at steps
    case launching =>
      cases steps
      intro up
      obtain ⟨index, run, here, carries⟩ := carried up
      have bound : index < s.runs.length := (List.getElem?_eq_some_iff.mp here).1
      exact ⟨index, run, by rw [getElem?_append_left bound, here], carries⟩
    all_goals
      repeat' split at steps
      all_goals cases steps
      all_goals exact carried
  | wait | connect | serve | activateError | tick | monitorDone | call | cancelRoot =>
    simp only [Activation.step] at steps
    repeat' split at steps
    all_goals cases steps
    all_goals exact carried

theorem Activation.Carried.live (carried : s.Carried) (blocked : s.Blocked)
    (reported : s.status.state.Reported) : s.Live := by
  obtain ⟨index, run, here, carries⟩ := carried reported.up
  have member : run ∈ s.runs := mem_of_getElem? here
  rcases carries with live | starting
  · exact ⟨run, member, live⟩
  · rcases blocked.runs run member with stage | ⟨stage, live⟩
    · simp [stage] at starting
    · exact ⟨run, member, live⟩

end Activated

/-! ### Plain units -/

section Plain

variable {u : ServiceUnit} {s next : Managed}

/-- The supervisor is about to start a process, or to report that it could not. -/
@[simp] def Loop.Launching : Loop → Prop
  | .spawning | .forking | .spawnFailed _ => True
  | _ => False

@[simp] def Loop.Attending : Loop → Prop
  | .recording | .awaitingReady | .readying _ | .settling | .waiting => True
  | _ => False

/-- The supervisor is in a round and has not marked the unit as running in it. -/
@[simp] def Loop.Opening : Loop → Prop
  | .spawning | .forking | .recording | .awaitingReady | .readying _ => True
  | _ => False

def Managed.Quiet (s : Managed) : Prop :=
  ∀ caller ∈ s.callers,
    caller.phase = .marking ∨ caller.phase = .finishing ∨ caller.phase = .returned

/-- The process has exited in a way that is not followed by a restart, and the supervisor is on its way
to report that. -/
structure Managed.Ending (u : ServiceUnit) (s : Managed) (code : Int) : Prop where
  exited : s.service.child.map Child.exit = some (some code)
  final : shouldRestart u.restart.policy code = false
  notCancelled : s.service.cancelled = false
  quiet : s.Quiet
  loop : s.service.loop.Attending ∨ s.service.loop = .exited code ∨ s.service.loop = .givingUp code

/-- What a step may not be: the exit of a process while the unit is on its way up, or up, unless it is
not followed by a restart and no call or cancellation is under way; a cancellation while such an exit is
not yet reported. -/
def Managed.Foreseen (u : ServiceUnit) (s : Managed) : ManagedStep → Prop
  | .own (.childExits code) => s.service.status.state.Up →
      shouldRestart u.restart.policy code = false ∧ s.service.cancelled = false ∧ s.Quiet
  | .cancelRoot => s.service.status.state.Up → s.Live ∨ s.service.loop.Launching
  | _ => True

structure Managed.Sound (u : ServiceUnit) (s : Managed) : Prop where
  /-- Calls are not made through the service's own field. -/
  stop : s.service.stop = .notCalled
  ready : s.service.status.state = .ready → s.service.loop = .settling
  opening : s.service.loop.Opening → s.service.status.state ≠ .running
  live : s.Live → s.service.loop.Attending ∨ s.service.loop = .returned ∧ s.service.cancelled = true
  carried : s.service.status.state.Up →
    s.Live ∨ s.service.loop.Launching ∨ ∃ code, s.Ending u code

theorem Managed.sound_launched (u : ServiceUnit) : (Managed.launched u).Sound u where
  stop := rfl
  ready := by simp [Managed.launched, Service.launched, newServiceStatus]
  opening := False.elim
  live := by simp [Managed.launched, Service.launched, Managed.Live]
  carried := False.elim

theorem Managed.Sound.live_of_blocked (sound : s.Sound u) (blocked : s.Blocked)
    (reported : s.service.status.state.Reported) : s.Live := by
  have blockedLoop := blocked.loop
  unfold Service.LoopBlocked at blockedLoop
  rcases sound.carried reported.up with live | launching | ⟨code, ending⟩
  · exact live
  · cases loop : s.service.loop <;> simp_all
  · obtain ⟨child, here, exited⟩ := Option.map_eq_some_iff.mp ending.exited
    rcases ending.loop with attending | loop | loop
    · cases loop : s.service.loop <;> simp only [loop, Loop.Attending] at attending blockedLoop
      case waiting => simp [blockedLoop child here] at exited
      case awaitingReady =>
        -- A unit that waits for its announcement is reported neither ready nor running.
        have notRunning := sound.opening (by simp [loop])
        have notReady : s.service.status.state ≠ .ready := fun ready => by simp [sound.ready ready] at loop
        cases state : s.service.status.state <;> simp_all
    · simp [loop] at blockedLoop
    · simp [loop] at blockedLoop

theorem Managed.sound_of_down (stop : s.service.stop = .notCalled) (dead : ¬ s.Live)
    (down : ¬ s.service.status.state.Up) : s.Sound u where
  stop := stop
  ready := fun ready => absurd (by simp [ready]) down
  opening := fun _ running => absurd (by simp [running]) down
  live := fun live => absurd live dead
  carried := fun up => absurd up down

@[simp] def Loop.Idle : Loop → Prop
  | .checking | .entering | .crashed | .crashLooping | .crashPausing | .counting | .backingOff => True
  | _ => False

theorem Managed.Sound.not_live (sound : s.Sound u) (away : ¬ s.service.loop.Attending)
    (working : s.service.loop ≠ .returned) : ¬ s.Live := by
  intro live
  rcases sound.live live with attending | ⟨returned, -⟩
  · exact away attending
  · exact working returned

theorem Managed.Sound.down (sound : s.Sound u) (idle : s.service.loop.Idle) :
    ¬ s.Live ∧ ¬ s.service.status.state.Up := by
  have dead : ¬ s.Live := by
    apply sound.not_live <;> revert idle <;> cases s.service.loop <;> simp
  refine ⟨dead, fun up => ?_⟩
  rcases sound.carried up with live | launching | ⟨code, ending⟩
  · exact dead live
  · revert idle launching
    cases s.service.loop <;> simp
  · have := ending.loop
    revert idle this
    cases s.service.loop <;> simp

theorem Managed.not_live_of_exit {code : Int} (exited : s.service.child.bind Child.exit = some code) :
    ¬ s.Live := by
  obtain ⟨child, here, exit⟩ := Option.bind_eq_some_iff.mp exited
  simp [Managed.Live, here, exit]

variable {after : Service}

/-- While the supervisor has a process, a step that keeps it and does not cancel anything. -/
theorem Managed.Sound.attend (sound : s.Sound u)
    (attending : s.service.loop.Attending) (attends : after.loop.Attending)
    (stop : after.stop = s.service.stop) (exit : after.child.map Child.exit = s.service.child.map Child.exit)
    (cancelled : after.cancelled = s.service.cancelled)
    (ready : after.status.state = .ready → after.loop = .settling)
    (opening : after.loop.Opening → after.status.state ≠ .running)
    (up : after.status.state.Up → s.service.status.state.Up) :
    Managed.Sound u { s with service := after } where
  stop := stop.trans sound.stop
  ready := ready
  opening := opening
  live := fun _ => .inl attends
  carried := fun isUp => by
    rcases sound.carried (up isUp) with live | launching | ⟨code, ending⟩
    · exact .inl (exit.trans live)
    · revert attending launching
      cases s.service.loop <;> simp
    · exact .inr (.inr ⟨code, exit.trans ending.exited, ending.final,
        cancelled.trans ending.notCancelled, ending.quiet, .inl attends⟩)

theorem Managed.Sound.proceed (sound : s.Sound u)
    (steps : s.service.proceed u = some after) : Managed.Sound u { s with service := after } := by
  have notReady : s.service.loop ≠ .settling → s.service.status.state ≠ .ready :=
    fun elsewhere ready => elsewhere (sound.ready ready)
  unfold Service.proceed at steps
  cases loop : s.service.loop <;> simp only [loop] at steps
  case checking | crashPausing | counting | backingOff =>
    obtain ⟨dead, down⟩ := sound.down (by simp [loop])
    cases steps
    exact Managed.sound_of_down sound.stop dead down
  case crashLooping =>
    obtain ⟨dead, -⟩ := sound.down (by simp [loop])
    cases steps
    exact Managed.sound_of_down sound.stop dead (not_up_of_down (.inl rfl))
  case spawnFailed | givingUp =>
    cases steps
    exact Managed.sound_of_down sound.stop
      (sound.not_live (by simp [loop]) (by simp [loop]))
      (not_up_of_down (.inl rfl))
  case entering =>
    obtain ⟨dead, down⟩ := sound.down (by simp [loop])
    cases steps
    refine ⟨sound.stop, fun ready => ?_, fun _ running => ?_, fun live => absurd live dead,
      fun _ => .inr (.inl trivial)⟩
    · revert ready down
      rw [state_move]
      cases s.service.status.state <;> simp [validTransition, allowed]
    · revert running down
      rw [state_move]
      cases s.service.status.state <;> simp [validTransition, allowed]
  case spawning =>
    cases steps
    refine ⟨sound.stop, fun ready => ?_, fun _ => ?_, fun live => ?_, fun _ => .inr (.inl ?_)⟩
    · exact absurd ready (notReady (by simp [loop]))
    · exact sound.opening (by simp [loop])
    · exact absurd live (sound.not_live (by simp [loop]) (by simp [loop]))
    · dsimp only
      split <;> trivial
  case forking =>
    cases steps
    refine ⟨sound.stop, fun ready => ?_, fun _ => ?_, fun _ => .inl trivial, fun _ => .inl rfl⟩
    · exact absurd ready (notReady (by simp [loop]))
    · exact sound.opening (by simp [loop])
  case recording =>
    cases steps
    refine sound.attend (by simp [loop]) ?_ rfl rfl rfl ?_ (fun _ => ?_) id
    · dsimp only
      split <;> trivial
    · exact fun ready => absurd ready (notReady (by simp [loop]))
    · exact sound.opening (by simp [loop])
  case awaitingReady =>
    split at steps
    · split at steps <;> cases steps
      rename_i child here token
      refine sound.attend (by simp [loop]) trivial rfl ?_ rfl ?_ (fun _ => ?_) id
      · simp [here]
      · exact fun ready => absurd ready (notReady (by simp [loop]))
      · exact sound.opening (by simp [loop])
    · cases steps
  case readying =>
    cases steps
    exact sound.attend (by simp [loop]) trivial rfl rfl rfl (fun _ => rfl) False.elim
      (up_of_move (by simp))
  case settling =>
    cases steps
    refine sound.attend (by simp [loop]) trivial rfl rfl rfl (fun ready => ?_) False.elim
      (up_of_move (by simp))
    revert ready
    rw [state_move]
    cases s.service.status.state <;> simp [validTransition, allowed]
  case exited code =>
    have dead : ¬ s.Live := sound.not_live (by simp [loop]) (by simp [loop])
    have ends : s.service.status.state.Up → s.Ending u code := by
      intro up
      rcases sound.carried up with live | launching | ⟨other, ending⟩
      · exact absurd live dead
      · simp [loop] at launching
      · have := ending.loop
        simp only [loop, Loop.Attending, Loop.exited.injEq, reduceCtorEq, false_or, or_false] at this
        exact this ▸ ending
    split at steps
    case isTrue cancelled =>
      cases steps
      refine Managed.sound_of_down sound.stop dead fun up => ?_
      simp [(ends up).notCancelled] at cancelled
    case isFalse =>
      cases steps
      refine ⟨sound.stop, fun ready => ?_, ?_, fun live => absurd live dead, fun up => ?_⟩
      · exact absurd ready (notReady (by simp [loop]))
      · dsimp only
        split <;> exact False.elim
      · have ending := ends up
        exact .inr (.inr ⟨code, { ending with loop := .inr (.inr (by simp [ending.final])) }⟩)
  case waiting | crashed | returned => cases steps

theorem Managed.Sound.child {after : Option Child} (sound : s.Sound u)
    (exit : after.map Child.exit = s.service.child.map Child.exit) :
    Managed.Sound u { s with service := { s.service with child := after } } := by
  refine { sound with
    live := fun live => sound.live (exit.symm.trans live)
    carried := fun up => (sound.carried up).imp exit.trans (.imp_right ?_) }
  exact fun ⟨code, ending⟩ => ⟨code, { ending with exited := exit.trans ending.exited }⟩

theorem Managed.Sound.exits {code : Int} {child : Child} (sound : s.Sound u)
    (foreseen : s.Foreseen u (.own (.childExits code))) (here : s.service.child = some child)
    (running : child.exit = none) :
    Managed.Sound u { s with
      service := { s.service with child := some { child with exit := some code, closed := true } } } := by
  refine { sound with live := by simp [Managed.Live], carried := fun up => ?_ }
  obtain ⟨final, notCancelled, quiet⟩ := foreseen up
  have live : s.Live := by simp [Managed.Live, here, running]
  rcases sound.live live with attending | ⟨-, cancelled⟩
  · exact .inr (.inr ⟨code, rfl, final, notCancelled, quiet, .inl attending⟩)
  · simp [notCancelled] at cancelled

theorem Managed.Sound.own {step : Step} (sound : s.Sound u)
    (foreseen : s.Foreseen u (.own step)) (noCall : step.isStop = false)
    (steps : s.service.step u step = some after) : Managed.Sound u { s with service := after } := by
  cases step with
  | proceed => exact sound.proceed steps
  | spawnError text =>
    simp only [Service.step] at steps
    split at steps <;> cases steps
    all_goals
      rename_i loop
      refine ⟨sound.stop, fun ready => ?_, False.elim, fun live => ?_, fun _ => .inr (.inl trivial)⟩
      · simp [sound.ready ready] at loop
      · exact absurd live (sound.not_live (by simp [loop]) (by simp [loop]))
  | contextDone =>
    simp only [Service.step] at steps
    split at steps
    case h_4 => cases steps
    case h_1 loop =>
      split at steps <;> cases steps
      rename_i cancelled
      refine ⟨sound.stop, fun ready => ?_, False.elim, fun _ => .inr ⟨rfl, cancelled⟩, fun up => ?_⟩
      · simp [sound.ready ready] at loop
      · rcases sound.carried up with live | launching | ⟨code, ending⟩
        · exact .inl live
        · simp [loop] at launching
        · simp [ending.notCancelled] at cancelled
    all_goals
      rename_i loop
      obtain ⟨dead, down⟩ := sound.down (by simp [loop])
      split at steps <;> cases steps
      exact Managed.sound_of_down sound.stop dead down
  | waitReturns reaped =>
    simp only [Service.step] at steps
    split at steps
    case h_2 => cases steps
    case h_1 code loop exited =>
      rw [sound.stop] at steps
      simp only [Option.ite_none_right_eq_some] at steps
      obtain ⟨-, steps⟩ := steps
      cases steps
      have dead := Managed.not_live_of_exit exited
      refine ⟨rfl, fun ready => ?_, False.elim, fun live => absurd live dead, fun up => ?_⟩
      · simp [sound.ready ready] at loop
      · rcases sound.carried up with live | launching | ⟨other, ending⟩
        · exact absurd live dead
        · simp [loop] at launching
        · obtain ⟨child, here, exit⟩ := Option.map_eq_some_iff.mp ending.exited
          have same : other = code := by simpa [here, exit] using exited
          subst same
          exact .inr (.inr ⟨other, { ending with loop := .inr (.inl rfl) }⟩)
  | crashClock now =>
    simp only [Service.step] at steps
    split at steps <;> cases steps
    rename_i loop
    obtain ⟨dead, down⟩ := sound.down (by simp [loop])
    exact Managed.sound_of_down sound.stop dead down
  | childExits code =>
    simp only [Service.step] at steps
    split at steps
    · split at steps <;> cases steps
      rename_i child here _ running
      exact sound.exits foreseen here running
    · cases steps
  | childWrites | childCloses | listen =>
    simp only [Service.step] at steps
    repeat' split at steps
    all_goals cases steps
    all_goals
      refine sound.child ?_
      simp [*]
  | stopBegin | stopRead | stopWaited | stopTimeout | stopCancel | stopEnd => cases noCall

theorem Managed.Sound.caller {index : Nat} {caller : Caller} {phase : StopPhase} {timeout : Bool}
    (sound : s.Sound u) (here : s.callers[index]? = some caller)
    (taken : caller.phase.next s.service.command s.service.hasExited timeout = some phase) :
    Managed.Sound u
      { service := { s.service with
          status := caller.phase.report caller.reason s.service.status
          cancelled := s.service.cancelled || caller.phase = .cancelling }
        callers := s.callers.set index { caller with phase } } := by
  have member : caller ∈ s.callers := mem_of_getElem? here
  have reported : ∀ state : State, state.Up →
      (caller.phase.report caller.reason s.service.status).state = state →
        s.service.status.state = state := by
    intro state up same
    have before := StopPhase.up_of_report (same ▸ up)
    cases phaseNow : caller.phase <;> simp only [phaseNow, StopPhase.report] at same before
    case marking => exact absurd rfl before.2
    case finishing =>
      revert same
      rw [state_move]
      revert up before
      cases s.service.status.state <;> cases state <;> simp [validTransition, allowed]
    all_goals exact same
  refine ⟨sound.stop, fun ready => ?_, fun opening running => ?_, fun live => ?_, fun up => ?_⟩
  · exact sound.ready (reported .ready trivial ready)
  · exact sound.opening opening (reported .running trivial running)
  · exact (sound.live live).imp_right fun ⟨returned, cancelled⟩ => ⟨returned, by simp [cancelled]⟩
  · obtain ⟨before, notMarking⟩ := StopPhase.up_of_report up
    refine (sound.carried before).imp_right (.imp_right ?_)
    rintro ⟨code, ending⟩
    -- A call that meets an unreported exit is one that has only its last transition to make.
    have finishing : caller.phase = .finishing := by
      rcases ending.quiet caller member with marking | finishing | returned
      · exact absurd marking notMarking
      · exact finishing
      · simp [returned, StopPhase.next] at taken
    simp only [finishing, StopPhase.next, Option.some.injEq] at taken
    refine ⟨code, { ending with notCancelled := ?_, quiet := fun other inside => ?_ }⟩
    · simp [ending.notCancelled, finishing]
    · rcases mem_or_eq_of_mem_set inside with old | rfl
      · exact ending.quiet other old
      · exact .inr (.inr taken.symm)

theorem Managed.Sound.step {step : ManagedStep} (sound : s.Sound u) (foreseen : s.Foreseen u step)
    (steps : s.step u step = some next) : next.Sound u := by
  cases step with
  | own step =>
    simp only [Managed.step, Option.ite_none_left_eq_some, Option.map_eq_some_iff] at steps
    obtain ⟨noCall, after, steps, rfl⟩ := steps
    exact sound.own foreseen (by simpa using noCall) steps
  | waitTaken =>
    simp only [Managed.step] at steps
    split at steps
    case h_2 => cases steps
    case h_1 code loop exited =>
      split at steps <;> cases steps
      rename_i taken
      have dead := Managed.not_live_of_exit exited
      refine Managed.sound_of_down sound.stop dead fun up => ?_
      rcases sound.carried up with live | launching | ⟨other, ending⟩
      · exact dead live
      · simp [loop] at launching
      · -- Nobody else has waited for the process.
        simp only [ending.notCancelled, Bool.false_or, any_eq_true] at taken
        obtain ⟨caller, member, waits⟩ := taken
        rcases ending.quiet caller member with phase | phase | phase <;>
          simp [Caller.waits, phase] at waits
  | call reason =>
    cases steps
    refine { sound with carried := fun up => ?_ }
    refine (sound.carried up).imp_right (.imp_right ?_)
    rintro ⟨code, ending⟩
    refine ⟨code, { ending with quiet := fun caller member => ?_ }⟩
    rcases mem_append.mp member with old | new
    · exact ending.quiet caller old
    · rw [mem_singleton.mp new]
      exact .inl rfl
  | caller index timeout =>
    simp only [Managed.step] at steps
    split at steps
    case h_2 => cases steps
    case h_1 caller here =>
      obtain ⟨phase, taken, rfl⟩ := Option.map_eq_some_iff.mp steps
      exact sound.caller here taken
  | cancelRoot =>
    cases steps
    refine { sound with live := fun live => ?_, carried := fun up => ?_ }
    · exact (sound.live live).imp_right fun ⟨returned, _⟩ => ⟨returned, rfl⟩
    · exact (foreseen up).imp_right .inl

end Plain

/-! ### Both kinds of units -/

def Truthful (state : State) (live exited : Prop) : Prop :=
  (state.Reported → live) ∧ (exited → ¬ live → ¬ state.Reported)

theorem truthful_of_reported {live exited : Prop} (tells : state.Reported → live) :
    Truthful state live exited :=
  ⟨tells, fun _ dead reported => dead (tells reported)⟩

/-- In a run in which no process exits while its unit is on its way up or up, other than a plain unit's
whose policy makes an end of it, the status of every blocked unit is truthful. -/
theorem status_faithful (u : ServiceUnit) :
    (∀ {steps : List ManagedStep} {s : Managed},
      Throughout (Managed.step u) (Managed.Foreseen u) (.launched u) steps →
      run (Managed.step u) (.launched u) steps = some s → s.Blocked →
        Truthful s.service.status.state s.Live s.HasExited) ∧
    (∀ {start : Int} {events : List Event} {s : Activation},
      Throughout (Activation.step u) Activation.Foreseen (.planned u start) events →
      run (Activation.step u) (.planned u start) events = some s → s.Blocked →
        Truthful s.status.state s.Live s.HasExited) := by
  constructor
  · intro steps s foreseen runs blocked
    have sound : s.Sound u :=
      run_invariant (fun _ _ _ sound met steps => sound.step met steps) (Managed.sound_launched u)
        foreseen runs
    exact truthful_of_reported (sound.live_of_blocked blocked)
  · intro start events s foreseen runs blocked
    have carried : s.Carried :=
      run_invariant (fun _ _ _ carried met steps => carried.step met steps)
        (show (planned u start).Carried from False.elim) foreseen runs
    exact truthful_of_reported (carried.live blocked)

theorem Managed.blocked_of_silent {s : Managed} {child : Child} (loop : s.service.LoopBlocked)
    (here : s.service.child = some child) (silent : child.listening = false)
    (callers : s.callers = []) : s.Blocked where
  loop := loop
  listener := by
    intro other there listening
    rw [here] at there
    cases there
    simp [silent] at listening
  callers := by simp [callers]

theorem Activation.blocked_of_run {s : Activation} {only : SocketRun}
    (activator : s.ActivatorBlocked s.activator) (monitor : s.MonitorBlocked s.monitor)
    (runs : s.runs = [only])
    (stage : only.stage = .returned ∨ only.stage = .waiting ∧ only.process = .live)
    (callers : s.callers = []) : s.Blocked where
  activator := activator
  monitor := monitor
  runs := by simpa [runs] using stage
  callers := by simp [callers]

def proxy : ServiceUnit :=
  { ServiceUnit.plain "proxy" [] [] with socketActivation := { enabled := true } }

def plainStarts : List ManagedStep :=
  List.replicate 7 (.own .proceed)

theorem starts_truthful :
    (∃ s, run (Managed.step proxy) (.launched proxy) plainStarts = some s ∧
      s.service.status.state = .running ∧ Truthful s.service.status.state s.Live s.HasExited) ∧
    (∃ s, run (Activation.step proxy) (.planned proxy 0) firstClient = some s ∧
      s.status.state = .running ∧ Truthful s.status.state s.Live s.HasExited) := by
  have plainRuns := Option.eq_some_of_isSome
    (show (run (Managed.step proxy) (.launched proxy) plainStarts).isSome by decide +kernel)
  have runs := Option.eq_some_of_isSome
    (show (run (step proxy) (.planned proxy 0) firstClient).isSome by decide +kernel)
  have plainForeseen : Throughout (Managed.step proxy) (Managed.Foreseen proxy) (.launched proxy)
      plainStarts :=
    throughout_of_always (fun step member _ => by rw [eq_of_mem_replicate member]; trivial) _
  have foreseen : Throughout (step proxy) Activation.Foreseen (.planned proxy 0)
      firstClient :=
    throughout_of_always (by simp [firstClient, Activation.Foreseen]) _
  have running : ((run (Managed.step proxy) (.launched proxy) plainStarts).get
      (by decide +kernel)).service.child = some (.started proxy) := by decide +kernel
  have only : ((run (step proxy) (.planned proxy 0) firstClient).get
      (by decide +kernel)).runs =
        [{ stage := .waiting, command := true, process := .live, cancelled := false }] := by
    decide +kernel
  obtain ⟨plain, activated⟩ := status_faithful proxy
  exact ⟨⟨_, plainRuns, by decide +kernel, plain plainForeseen plainRuns
      (Managed.blocked_of_silent (fun _ here => by cases here; rfl) running rfl (by decide +kernel))⟩,
    ⟨_, runs, by decide +kernel, activated foreseen runs
      (blocked_of_run (show _ = false by decide +kernel) trivial only (.inr ⟨rfl, rfl⟩)
        (by decide +kernel))⟩⟩

def proxyExits : List Event :=
  firstClient ++ [.exits 0, .run 0 none, .run 0 none, .run 0 none, .activate, .activate]

/-- The process exits with status one, and the supervisor waits before it starts the next. -/
def plainExits : List ManagedStep :=
  plainStarts ++ [.own (.childExits 1), .own (.waitReturns true), .own .proceed, .own (.crashClock 0),
    .own .proceed]

/-- Units that are reported running without a process, a socket-activated one and a plain one. -/
theorem exits_untruthful :
    (∃ s, run (Activation.step proxy) (.planned proxy 0) proxyExits = some s ∧ s.Blocked ∧
      s.status.state = .running ∧ s.HasExited ∧ ¬ s.Live) ∧
    (∃ s, run (Managed.step proxy) (.launched proxy) plainExits = some s ∧ s.Blocked ∧
      s.service.status.state = .running ∧ s.HasExited ∧ ¬ s.Live) := by
  have runs := Option.eq_some_of_isSome
    (show (run (step proxy) (.planned proxy 0) proxyExits).isSome by decide +kernel)
  have plainRuns := Option.eq_some_of_isSome
    (show (run (Managed.step proxy) (.launched proxy) plainExits).isSome by decide +kernel)
  have only : ((run (step proxy) (.planned proxy 0) proxyExits).get
      (by decide +kernel)).runs =
        [{ stage := .returned, command := true, process := .exited, cancelled := true }] := by
    decide +kernel
  have dead : ((run (Managed.step proxy) (.launched proxy) plainExits).get
      (by decide +kernel)).service.child =
        some { Child.started proxy with exit := some 1, closed := true } := by decide +kernel
  refine ⟨⟨_, runs, ?_, by decide +kernel, ?_, ?_⟩, ⟨_, plainRuns, ?_, by decide +kernel, ?_, ?_⟩⟩
  · exact blocked_of_run ⟨by decide +kernel, by decide +kernel⟩ trivial only (.inl rfl)
      (by decide +kernel)
  · simp [Activation.HasExited, only]
  · simp [Activation.Live, only]
  · exact Managed.blocked_of_silent (show _ = false by decide +kernel) dead rfl (by decide +kernel)
  · simp [Managed.HasExited, dead]
  · simp [Managed.Live, dead]

end NuraOS.Lifecycle
