/-
Purpose: When a supervisor waits for a child that has exited, when a stop is final, which OOM kills are
  reported, and when the crash-loop breaker keeps its promise.
-/
import Mathlib.Algebra.BigOperators.Group.List.Basic
import NuraOS.Lifecycle.Supervisor

namespace NuraOS.Lifecycle

open Foundation Foundation.Machine Foundation.Scanner NuraOS.Services

variable {u : ServiceUnit} {s next : Service}

def announces (written : Bytes) : Bool :=
  (scan true written).tokens.any isReadyLine

/-- The listener has returned and will not hear an announcement: the pipe is closed without one, or a
line was too long. -/
def Child.Deaf (child : Child) : Prop :=
  (child.closed = true ∧ announces child.written = false) ∨
    ((scan false child.written).ending = .tooLong ∧
      (scan false child.written).tokens.any isReadyLine = false)

theorem Child.Deaf.not_announces {child : Child} (deaf : child.Deaf) :
    announces child.written = false := by
  rcases deaf with ⟨-, silent⟩ | ⟨stopped, silent⟩
  · exact silent
  · have same := scan_append_of_tooLong stopped true []
    rw [List.append_nil] at same
    rw [announces, same]
    exact silent

theorem Child.Deaf.write {child : Child} (deaf : child.Deaf) (stillOpen : child.closed = false)
    (bytes : Bytes) : Child.Deaf { child with written := child.written ++ bytes } := by
  rcases deaf with ⟨closed, -⟩ | ⟨stopped, silent⟩
  · rw [closed] at stillOpen
    cases stillOpen
  · refine .inr ?_
    rw [scan_append_of_tooLong stopped false bytes]
    exact ⟨stopped, silent⟩

theorem Child.Deaf.close {child : Child} (deaf : child.Deaf) (exit : Option Int) :
    Child.Deaf { child with exit, closed := true } :=
  .inl ⟨rfl, deaf.not_announces⟩

theorem Child.deaf_of_ended {child : Child}
    (ended : notifyListener child.closed child.written = .ended) :
    Child.Deaf { child with listening := false } := by
  unfold notifyListener at ended
  dsimp only at ended
  split at ended
  · cases ended
  · rename_i silent
    rw [Bool.not_eq_true] at silent
    cases closed : child.closed with
    | true =>
      rw [closed] at silent
      exact .inl ⟨rfl, silent⟩
    | false =>
      rw [closed] at silent ended
      cases ending : (scan false child.written).ending with
      | eof => exact absurd ending (scan_open_ending _)
      | pending =>
        rw [ending] at ended
        cases ended
      | tooLong => exact .inr ⟨ending, silent⟩

theorem notifyListener_of_announces {written : Bytes} (announced : announces written = true) :
    notifyListener true written = .ready := by
  unfold announces at announced
  simp only [notifyListener, announced, if_true]

/-! ### The supervisor -/

def Service.Announced (s : Service) : Step → Prop
  | .childExits _ => s.child.all (fun child => announces child.written) = true
  | _ => True

def Loop.Supervises : Loop → Prop
  | .recording | .awaitingReady | .readying _ | .settling | .waiting => True
  | _ => False

def Loop.Unannounced : Loop → Prop
  | .recording | .awaitingReady => True
  | _ => False

structure Service.Notified (s : Service) : Prop where
  supervised : s.loop.Supervises → s.child.isSome
  closed : ∀ child ∈ s.child, child.exit.isSome → child.closed = true
  announced : ∀ child ∈ s.child, child.exit.isSome → announces child.written = true
  heard : ∀ child ∈ s.child, s.loop.Unannounced → child.listening = false → child.token = false →
    child.Deaf

theorem Service.Notified.of_same (notified : s.Notified) (child : next.child = s.child)
    (supervises : next.loop.Supervises → s.loop.Supervises)
    (unannounced : next.loop.Unannounced → s.loop.Unannounced) : next.Notified := by
  refine ⟨fun still => ?_, ?_, ?_, ?_⟩ <;> rw [child]
  · exact notified.supervised (supervises still)
  · exact notified.closed
  · exact notified.announced
  · exact fun one member still => notified.heard one member (unannounced still)

theorem Loop.Unannounced.supervises {loop : Loop} (unannounced : loop.Unannounced) :
    loop.Supervises := by
  cases loop <;> first | exact unannounced.elim | trivial

theorem Service.Notified.elsewhere (notified : s.Notified) (child : next.child = s.child)
    (idle : ¬ next.loop.Supervises) : next.Notified :=
  notified.of_same child (fun supervises => absurd supervises idle)
    (fun unannounced => absurd unannounced.supervises idle)

theorem Service.Notified.proceed (notify : u.type = .notify) (notified : s.Notified)
    (steps : s.proceed u = some next) : next.Notified := by
  unfold Service.proceed at steps
  cases loop : s.loop <;> simp only [loop] at steps
  case forking =>
    cases steps
    refine ⟨fun _ => rfl, ?_, ?_, ?_⟩ <;> rintro child ⟨rfl⟩
    · exact fun exited => by cases exited
    · exact fun exited => by cases exited
    · exact fun _ deaf => by simp [Child.started, notify] at deaf
  case recording =>
    cases steps
    refine notified.of_same rfl (fun _ => ?_) (fun _ => ?_) <;> rw [loop] <;> trivial
  case awaitingReady =>
    split at steps
    · rename_i child here
      split at steps <;> cases steps
      have member : child ∈ s.child := here
      refine ⟨fun _ => rfl, ?_, ?_, ?_⟩ <;> rintro one ⟨rfl⟩
      · exact notified.closed child member
      · exact notified.announced child member
      · exact fun unannounced => unannounced.elim
    · cases steps
  case readying | settling =>
    cases steps
    refine notified.of_same rfl (fun _ => ?_) (fun unannounced => unannounced.elim)
    rw [loop]
    trivial
  case waiting | crashed | returned => cases steps
  all_goals
    repeat' split at steps
    all_goals cases steps
    all_goals exact notified.elsewhere rfl (by grind [Loop.Supervises])

theorem Service.notified_of_child {changed : Child}
    (closed : changed.exit.isSome → changed.closed = true)
    (announced : changed.exit.isSome → announces changed.written = true)
    (heard : s.loop.Unannounced → changed.listening = false → changed.token = false → changed.Deaf) :
    Service.Notified { s with child := some changed } := by
  refine ⟨fun _ => rfl, ?_, ?_, ?_⟩ <;> rintro one ⟨rfl⟩
  · exact closed
  · exact announced
  · exact heard

theorem Service.Notified.step (notify : u.type = .notify) {step : Step} (notified : s.Notified)
    (announced : s.Announced step) (steps : s.step u step = some next) : next.Notified := by
  cases step with
  | proceed => exact notified.proceed notify steps
  | spawnError | contextDone | waitReturns =>
    simp only [Service.step] at steps
    repeat' split at steps
    all_goals cases steps
    all_goals exact notified.elsewhere rfl id
  | crashClock now =>
    simp only [Service.step] at steps
    split at steps <;> cases steps
    refine notified.elsewhere rfl ?_
    split <;> exact id
  | childWrites bytes =>
    simp only [Service.step] at steps
    split at steps
    · rename_i child here
      split at steps <;> cases steps
      rename_i stillOpen
      rw [Bool.not_eq_true] at stillOpen
      refine notified_of_child (notified.closed child here) (fun exited => ?_) ?_
      · have closed := notified.closed child here exited
        rw [stillOpen] at closed
        cases closed
      · exact fun unannounced returned empty =>
          (notified.heard child here unannounced returned empty).write stillOpen bytes
    · cases steps
  | childCloses =>
    simp only [Service.step] at steps
    split at steps <;> cases steps
    rename_i child here
    exact notified_of_child (fun _ => rfl) (notified.announced child here)
      fun unannounced returned empty =>
        (notified.heard child here unannounced returned empty).close child.exit
  | childExits code =>
    simp only [Service.step] at steps
    split at steps
    · rename_i child here
      split at steps <;> cases steps
      have announces : announces child.written = true := by
        simpa [Service.Announced, here] using announced
      exact notified_of_child (fun _ => rfl) (fun _ => announces)
        fun unannounced returned empty =>
          (notified.heard child here unannounced returned empty).close (some code)
    · cases steps
  | listen =>
    simp only [Service.step] at steps
    split at steps
    · rename_i child here
      split at steps
      · split at steps <;> cases steps
        · exact notified_of_child (notified.closed child here) (notified.announced child here)
            (fun _ _ empty => by cases empty)
        · rename_i ended
          exact notified_of_child (notified.closed child here) (notified.announced child here)
            fun _ _ _ => Child.deaf_of_ended ended
      · cases steps
    · cases steps
  | stopBegin | stopRead | stopWaited | stopTimeout | stopCancel | stopEnd =>
    simp only [Service.step] at steps
    repeat' split at steps
    all_goals cases steps
    all_goals exact notified.of_same rfl id id

/-! ### No lost supervisor -/

def Step.isInternal : Step → Bool
  | .proceed | .listen | .waitReturns _ => true
  | _ => false

def Loop.Waits : Loop → Prop
  | .awaitingReady | .waiting | .crashPausing | .backingOff => True
  | _ => False

/-- The child has exited, the unit has not been stopped, and the supervisor waits for what no run
without a stop brings. -/
structure Service.Lost (u : ServiceUnit) (s : Service) : Prop where
  exited : (s.child.bind Child.exit).isSome
  notStopped : s.stop = .notCalled
  waits : s.loop.Waits
  blocked : ∀ steps last, (∀ step ∈ steps, step.isStop = false) →
    run (Service.step u) s steps = some last → last.loop = s.loop

def Service.LeadsToPolicy (u : ServiceUnit) (s : Service) (code : Int) : Prop :=
  ∃ steps last, (∀ step ∈ steps, step.isInternal = true) ∧
    run (Service.step u) s steps = some last ∧ last.loop = .exited code

theorem Service.LeadsToPolicy.step {code : Int} {step : Step} (internal : step.isInternal = true)
    (steps : s.step u step = some next) (leads : next.LeadsToPolicy u code) :
    s.LeadsToPolicy u code := by
  obtain ⟨rest, last, internals, runs, reaches⟩ := leads
  exact ⟨step :: rest, last, List.forall_mem_cons.mpr ⟨internal, internals⟩,
    run_cons_eq_some.mpr ⟨next, steps, runs⟩, reaches⟩

section Exit

variable {child : Child} {code : Int} (here : s.child = some child) (exited : child.exit = some code)

include here exited

theorem Service.leads_of_waiting (loop : s.loop = .waiting) : s.LeadsToPolicy u code := by
  have steps : s.step u (.waitReturns true) = some { s with loop := .exited code } := by
    simp [Service.step, loop, here, exited]
  exact .step rfl steps ⟨[], _, by simp, rfl, rfl⟩

theorem Service.leads_of_settling (loop : s.loop = .settling) : s.LeadsToPolicy u code := by
  have steps : s.step u .proceed = some { s with
      status := s.status.move .running "ready -> running", loop := .waiting } := by
    simp [Service.step, Service.proceed, loop]
  exact .step rfl steps (leads_of_waiting here exited rfl)

theorem Service.leads_of_readying {reason : String} (loop : s.loop = .readying reason) :
    s.LeadsToPolicy u code := by
  have steps : s.step u .proceed = some { s with
      status := s.status.move .ready reason, loop := .settling } := by
    simp [Service.step, Service.proceed, loop]
  exact .step rfl steps (leads_of_settling here exited rfl)

theorem Service.leads_of_token (loop : s.loop = .awaitingReady) (token : child.token = true) :
    s.LeadsToPolicy u code := by
  have steps : s.step u .proceed = some { s with
      child := some { child with token := false }, loop := .readying "notify: READY=1" } := by
    simp [Service.step, Service.proceed, loop, here, token]
  exact .step rfl steps (leads_of_readying rfl exited rfl)

theorem Service.Notified.leads_of_awaiting (notified : s.Notified) (loop : s.loop = .awaitingReady) :
    s.LeadsToPolicy u code := by
  have isSome : child.exit.isSome := by simp [exited]
  have announced := notified.announced child here isSome
  have closed := notified.closed child here isSome
  cases token : child.token with
  | true => exact leads_of_token here exited loop token
  | false =>
    have listening : child.listening = true := by
      by_contra returned
      have deaf := notified.heard child here (by rw [loop]; trivial) (by simpa using returned) token
      rw [deaf.not_announces] at announced
      cases announced
    have steps : s.step u .listen = some { s with
        child := some { child with listening := false, token := true } } := by
      simp [Service.step, here, listening, closed, notifyListener_of_announces announced]
    exact .step rfl steps (leads_of_token rfl exited loop rfl)

theorem Service.Notified.leads (notify : u.type = .notify) (notified : s.Notified)
    (supervises : s.loop.Supervises) : s.LeadsToPolicy u code := by
  cases loop : s.loop <;> simp only [loop] at supervises
  case recording =>
    have steps : s.step u .proceed = some { s with
        command := some s.launches
        status := { s.status with pid := s.launches }
        loop := .awaitingReady } := by
      simp [Service.step, Service.proceed, loop, notify]
    refine .step rfl steps ?_
    exact (notified.proceed notify steps).leads_of_awaiting here exited rfl
  case awaitingReady => exact notified.leads_of_awaiting here exited loop
  case readying => exact leads_of_readying here exited loop
  case settling => exact leads_of_settling here exited loop
  case waiting => exact leads_of_waiting here exited loop
  all_goals exact supervises.elim

end Exit

theorem Service.Notified.not_lost (notify : u.type = .notify) (notified : s.Notified) :
    ¬ s.Lost u := by
  rintro ⟨exited, -, waits, blocked⟩
  obtain ⟨code, exited⟩ := Option.isSome_iff_exists.mp exited
  obtain ⟨child, here, exited⟩ := Option.bind_eq_some_iff.mp exited
  have moves : ∀ next, s.step u .proceed = some next → next.loop = s.loop := by
    intro next steps
    exact blocked [.proceed] next (by simp [Step.isStop])
      (run_cons_eq_some.mpr ⟨next, steps, rfl⟩)
  have supervised : ¬ s.loop.Supervises := by
    intro supervises
    obtain ⟨steps, last, internal, runs, policy⟩ := notified.leads here exited notify supervises
    have same := blocked steps last (fun step member => ?_) runs
    · rw [← same, policy] at supervises
      exact supervises
    · cases step <;> first | rfl | exact absurd (internal _ member) (by decide)
  cases loop : s.loop <;> simp only [loop] at waits supervised
  case awaitingReady | waiting => exact supervised trivial
  case crashPausing | backingOff =>
    have same := moves _ (by simp only [Service.step, Service.proceed, loop]; rfl)
    rw [loop] at same
    cases same
  all_goals exact waits.elim

/-- In every run of a notify unit in which each child announces itself before it exits, no state is one
of a lost supervisor, and from every state in which the child of the supervisor has exited its own steps
and the listener's lead the supervisor to its restart policy. -/
theorem notify_supervised (u : ServiceUnit) (notify : u.type = .notify) {steps : List Step}
    {s : Service} (announced : Throughout (Service.step u) Service.Announced (.launched u) steps)
    (runs : run (Service.step u) (.launched u) steps = some s) :
    ¬ s.Lost u ∧ ∀ child code, s.loop.Supervises → s.child = some child → child.exit = some code →
      s.LeadsToPolicy u code := by
  have start : (Service.launched u).Notified := by
    refine ⟨False.elim, ?_, ?_, ?_⟩ <;> exact fun _ member => by cases member
  have notified : s.Notified :=
    run_invariant (fun _ _ _ notified announced steps => notified.step notify announced steps) start
      announced runs
  exact ⟨notified.not_lost notify,
    fun child code supervises here exited => notified.leads here exited notify supervises⟩

def gateway : ServiceUnit :=
  { ServiceUnit.plain "gateway" [] [] with type := .notify }

def announcedExit : List Step :=
  List.replicate 5 .proceed ++ [.childWrites (utf8 "READY=1\n"), .childExits 1]

instance (s : Service) : DecidablePred s.Announced
  | .childExits _ => inferInstanceAs (Decidable (_ = true))
  | .proceed | .spawnError _ | .contextDone | .waitReturns _ | .crashClock _ | .childWrites _
  | .childCloses | .listen | .stopBegin | .stopRead | .stopWaited | .stopTimeout | .stopCancel
  | .stopEnd => .isTrue trivial

theorem announcedExit_supervised :
    ∃ s, run (Service.step gateway) (.launched gateway) announcedExit = some s ∧ ¬ s.Lost gateway ∧
      s.LeadsToPolicy gateway 1 := by
  obtain ⟨s, runs, loop, here⟩ := exists_run (P := fun s => s.loop = .awaitingReady ∧ s.child = some
    { exit := some 1, written := utf8 "READY=1\n", closed := true, listening := true, token := false })
    (show (run (Service.step gateway) (.launched gateway) announcedExit).any _ = true by decide)
  obtain ⟨notLost, leads⟩ := notify_supervised gateway rfl (by decide) runs
  exact ⟨s, runs, notLost, leads _ 1 (by rw [loop]; trivial) here rfl⟩

structure Service.Stuck (s : Service) : Prop where
  loop : s.loop = .awaitingReady
  notCancelled : s.cancelled = false
  child : ∃ child, s.child = some child ∧ child.exit.isSome ∧ child.listening = false ∧
    child.token = false

theorem Service.Stuck.step {step : Step} (stuck : s.Stuck) (noStop : step.isStop = false)
    (steps : s.step u step = some next) : next.Stuck := by
  obtain ⟨loop, notCancelled, child, here, exited, returned, empty⟩ := stuck
  cases step with
  | childWrites bytes =>
    simp only [Service.step, here] at steps
    split at steps <;> cases steps
    exact ⟨loop, notCancelled, _, rfl, exited, returned, empty⟩
  | childCloses =>
    simp only [Service.step, here] at steps
    cases steps
    exact ⟨loop, notCancelled, _, rfl, exited, returned, empty⟩
  | childExits code =>
    obtain ⟨other, exits⟩ := Option.isSome_iff_exists.mp exited
    simp [Service.step, here, exits] at steps
  | proceed => simp [Service.step, Service.proceed, loop, here, empty] at steps
  | spawnError | waitReturns | crashClock => simp [Service.step, loop] at steps
  | contextDone => simp [Service.step, loop, notCancelled] at steps
  | listen => simp [Service.step, here, returned] at steps
  | stopBegin | stopRead | stopWaited | stopTimeout | stopCancel | stopEnd => cases noStop

def silentExit : List Step :=
  List.replicate 5 .proceed ++ [.childExits 1, .listen]

theorem silentExit_lost :
    ∃ s, run (Service.step gateway) (.launched gateway) silentExit = some s ∧ s.Lost gateway := by
  obtain ⟨s, runs, notCalled, loop, notCancelled, here⟩ := exists_run (P := fun s => s.stop = .notCalled ∧
    s.loop = .awaitingReady ∧ s.cancelled = false ∧ s.child = some
      { exit := some 1, written := [], closed := true, listening := false, token := false })
    (show (run (Service.step gateway) (.launched gateway) silentExit).any _ = true by decide)
  have waits : s.loop.Waits := by
    rw [loop]
    trivial
  refine ⟨s, runs, by simp [here], notCalled, waits, fun steps last noStop continues => ?_⟩
  have stillStuck : last.Stuck :=
    run_invariant (fun _ _ _ stuck noStop steps => stuck.step noStop steps)
      ⟨loop, notCancelled, _, here, rfl, rfl, rfl⟩ (throughout_of_forall noStop _) continues
  rw [stillStuck.loop, loop]

variable {u : ServiceUnit} {s next : Service}

@[simp] def Loop.Fails : Loop → Prop
  | .spawnFailed _ | .givingUp _ | .crashLooping => True
  | _ => False

/-- What a step may not meet: a stop that begins when the unit is neither starting nor up, or that
finds no command; a context cancelled between the supervisor's check and the start of the process; a
failure reported while the unit is stopping. -/
def Service.Orderly (s : Service) : Step → Prop
  | .stopBegin => s.status.state = .starting ∨ s.status.state = .ready ∨ s.status.state = .running
  | .stopRead => s.command ≠ none
  | .stopCancel => s.loop ≠ .entering ∧ s.loop ≠ .forking
  | .proceed => s.loop.Fails → s.status.state ≠ .stopping
  | _ => True

instance : DecidablePred Loop.Fails
  | .spawnFailed _ | .givingUp _ | .crashLooping => .isTrue trivial
  | .checking | .entering | .spawning | .forking | .recording | .awaitingReady | .readying _
  | .settling | .waiting | .exited _ | .crashed | .crashPausing | .counting | .backingOff
  | .returned => .isFalse id

instance (s : Service) : DecidablePred s.Orderly
  | .stopBegin => inferInstanceAs (Decidable (_ ∨ _ ∨ _))
  | .stopRead => inferInstanceAs (Decidable (_ ≠ _))
  | .stopCancel => inferInstanceAs (Decidable (_ ≠ _ ∧ _ ≠ _))
  | .proceed => inferInstanceAs (Decidable (s.loop.Fails → _ ≠ _))
  | .spawnError _ | .contextDone | .waitReturns _ | .crashClock _ | .childWrites _ | .childCloses
  | .childExits _ | .listen | .stopWaited | .stopTimeout | .stopEnd => .isTrue trivial

/-- The context is cancelled, and the supervisor is past the places from which it could still start a
process or mark the unit as starting. -/
structure Service.Quiet (s : Service) : Prop where
  cancelled : s.cancelled = true
  notEntering : s.loop ≠ .entering
  notForking : s.loop ≠ .forking

/-- What one step of the supervisor can do: it starts a process or enters a round only from the places
named for that, goes there only while the context is not done, and moves the state in one of four ways. -/
structure Service.Proceeds (s next : Service) : Prop where
  stop : next.stop = s.stop
  cancelled : next.cancelled = s.cancelled
  launches : next.launches = s.launches ∨ s.loop = .forking
  live : next.loop = .entering ∨ next.loop = .forking → s.cancelled = false
  state : next.status.state = s.status.state ∨
    ∃ dst reason, next.status = s.status.move dst reason ∧
      (dst = .starting ∧ s.loop = .entering ∨ dst = .failed ∧ s.loop.Fails ∨
        dst = .ready ∨ dst = .running)

theorem Service.proceeds_of_proceed (steps : s.proceed u = some next) : s.Proceeds next := by
  unfold Service.proceed at steps
  cases loop : s.loop <;> simp only [loop] at steps
  case entering =>
    cases steps
    exact ⟨rfl, rfl, .inl rfl, by simp, .inr ⟨_, _, rfl, .inl ⟨rfl, loop⟩⟩⟩
  case forking =>
    cases steps
    exact ⟨rfl, rfl, .inr loop, by simp, .inl rfl⟩
  case readying | settling =>
    cases steps
    exact ⟨rfl, rfl, .inl rfl, by simp, .inr ⟨_, _, rfl, by simp⟩⟩
  case spawnFailed | givingUp | crashLooping =>
    cases steps
    exact ⟨rfl, rfl, .inl rfl, by grind, .inr ⟨_, _, rfl, by simp [loop]⟩⟩
  case checking | spawning | recording | crashPausing | counting | backingOff =>
    cases steps
    exact ⟨rfl, rfl, .inl rfl, by grind, .inl rfl⟩
  case awaitingReady | exited =>
    repeat' split at steps
    all_goals cases steps
    all_goals exact ⟨rfl, rfl, .inl rfl, by grind, .inl rfl⟩
  case waiting | crashed | returned => cases steps

theorem Service.Proceeds.stopping (proceeds : s.Proceeds next) (stopping : s.status.state = .stopping)
    (fine : ¬ s.loop.Fails) : next.status.state = .stopping := by
  rcases proceeds.state with same | ⟨dst, reason, moved, ⟨rfl, -⟩ | ⟨-, fails⟩ | rfl | rfl⟩
  · exact same.trans stopping
  · simp [moved, stopping, validTransition, allowed]
  · exact absurd fails fine
  · simp [moved, stopping, validTransition, allowed]
  · simp [moved, stopping, validTransition, allowed]

theorem Service.Proceeds.inactive (proceeds : s.Proceeds next) (inactive : s.status.state = .inactive)
    (elsewhere : s.loop ≠ .entering) : next.status.state = .inactive := by
  rcases proceeds.state with same | ⟨dst, reason, moved, ⟨-, entering⟩ | ⟨rfl, -⟩ | rfl | rfl⟩
  · exact same.trans inactive
  · exact absurd entering elsewhere
  · simp [moved, inactive, validTransition, allowed]
  · simp [moved, inactive, validTransition, allowed]
  · simp [moved, inactive, validTransition, allowed]

theorem Service.Proceeds.quiet (proceeds : s.Proceeds next) (quiet : s.Quiet) :
    next.Quiet ∧ next.launches = s.launches := by
  have done : ¬ (next.loop = .entering ∨ next.loop = .forking) := by
    intro continues
    have live := proceeds.live continues
    rw [quiet.cancelled] at live
    cases live
  rw [not_or] at done
  exact ⟨⟨proceeds.cancelled.trans quiet.cancelled, done.1, done.2⟩,
    proceeds.launches.resolve_right quiet.notForking⟩

/-- A step beside the supervisor's own and those of the stop: it changes neither the status nor the
context, and starts no process. -/
structure Service.Aside (s next : Service) : Prop where
  status : next.status = s.status
  stop : next.stop = s.stop
  cancelled : next.cancelled = s.cancelled
  launches : next.launches = s.launches
  loop : next.loop = s.loop ∨ next.loop ≠ .entering ∧ next.loop ≠ .forking

theorem Service.Aside.quiet (aside : s.Aside next) (quiet : s.Quiet) : next.Quiet := by
  obtain ⟨cancelled, notEntering, notForking⟩ := quiet
  refine ⟨aside.cancelled.trans cancelled, ?_, ?_⟩
  · rcases aside.loop with same | ⟨other, -⟩
    · rwa [same]
    · exact other
  · rcases aside.loop with same | ⟨-, other⟩
    · rwa [same]
    · exact other

/-! ### The stop -/

def Service.StopHolds (s : Service) : Prop :=
  match s.stop with
  | .notCalled => True
  | .marked | .waitingFor _ | .cancelling => s.status.state = .stopping
  | .finishing => s.status.state = .stopping ∧ s.Quiet
  | .returned => s.status.state = .inactive ∧ s.Quiet

/-- The steps of the child, of the listener and of the clock, and what a `select` or `cmd.Wait` of the
supervisor returns. -/
def Step.isAside : Step → Bool
  | .spawnError _ | .contextDone | .waitReturns _ | .crashClock _ | .childWrites _ | .childCloses
  | .childExits _ | .listen => true
  | _ => false

theorem Service.aside_of_step {step : Step} (beside : step.isAside)
    (steps : s.step u step = some next) : s.Aside next := by
  cases step with
  | proceed | stopBegin | stopRead | stopWaited | stopTimeout | stopCancel | stopEnd => cases beside
  | crashClock now =>
    simp only [Service.step] at steps
    split at steps <;> cases steps
    refine ⟨rfl, rfl, rfl, rfl, .inr ?_⟩
    split <;> simp
  | spawnError | contextDone | waitReturns | childWrites | childCloses | childExits | listen =>
    simp only [Service.step] at steps
    repeat' split at steps
    all_goals cases steps
    all_goals exact ⟨rfl, rfl, rfl, rfl, by simp⟩

theorem Service.StopHolds.aside (holds : s.StopHolds) (aside : s.Aside next) : next.StopHolds := by
  unfold StopHolds at holds ⊢
  rw [aside.stop, aside.status]
  cases stop : s.stop with
  | notCalled => trivial
  | marked | waitingFor | cancelling => simpa only [stop] using holds
  | finishing | returned =>
    simp only [stop] at holds ⊢
    exact ⟨holds.1, aside.quiet holds.2⟩

theorem Service.StopHolds.proceed (holds : s.StopHolds) (proceeds : s.Proceeds next)
    (fine : s.loop.Fails → s.status.state ≠ .stopping) : next.StopHolds := by
  unfold StopHolds at holds ⊢
  rw [proceeds.stop]
  cases stop : s.stop with
  | notCalled => trivial
  | marked | waitingFor | cancelling =>
    simp only [stop] at holds ⊢
    exact proceeds.stopping holds fun fails => fine fails holds
  | finishing =>
    simp only [stop] at holds ⊢
    exact ⟨proceeds.stopping holds.1 fun fails => fine fails holds.1, (proceeds.quiet holds.2).1⟩
  | returned =>
    simp only [stop] at holds ⊢
    exact ⟨proceeds.inactive holds.1 holds.2.notEntering, (proceeds.quiet holds.2).1⟩

theorem Service.StopHolds.step {step : Step} (holds : s.StopHolds) (orderly : s.Orderly step)
    (steps : s.step u step = some next) : next.StopHolds := by
  cases step with
  | proceed => exact holds.proceed (proceeds_of_proceed steps) orderly
  | spawnError | contextDone | waitReturns | crashClock | childWrites | childCloses | childExits
  | listen => exact holds.aside (aside_of_step rfl steps)
  | stopBegin =>
    simp only [Service.step] at steps
    split at steps <;> cases steps
    rcases orderly with state | state | state <;>
      simp [StopHolds, state, validTransition, allowed]
  | stopRead =>
    simp only [Service.step] at steps
    split at steps
    · rename_i marked
      split at steps
      · rename_i missing
        exact absurd missing orderly
      · cases steps
        simpa only [StopHolds, marked] using holds
    · cases steps
  | stopWaited | stopTimeout =>
    simp only [Service.step] at steps
    repeat' split at steps
    all_goals cases steps
    all_goals simp_all [StopHolds]
  | stopCancel =>
    simp only [Service.step] at steps
    split at steps
    · rename_i cancelling
      cases steps
      simp only [StopHolds, cancelling] at holds
      exact ⟨holds, ⟨rfl, orderly.1, orderly.2⟩⟩
    · cases steps
  | stopEnd =>
    simp only [Service.step] at steps
    split at steps
    · rename_i finishing
      cases steps
      simp only [StopHolds, finishing] at holds
      obtain ⟨stopping, cancelled, notEntering, notForking⟩ := holds
      exact ⟨by simp [stopping, validTransition, allowed], ⟨cancelled, notEntering, notForking⟩⟩
    · cases steps

theorem Service.StopHolds.launches {step : Step} (holds : s.StopHolds) (returned : s.stop = .returned)
    (steps : s.step u step = some next) :
    next.stop = .returned ∧ next.launches = s.launches := by
  simp only [StopHolds, returned] at holds
  cases step with
  | proceed =>
    have proceeds := proceeds_of_proceed steps
    exact ⟨proceeds.stop.trans returned, (proceeds.quiet holds.2).2⟩
  | spawnError | contextDone | waitReturns | crashClock | childWrites | childCloses | childExits
  | listen =>
    have aside : s.Aside next := aside_of_step rfl steps
    exact ⟨aside.stop.trans returned, aside.launches⟩
  | stopBegin | stopRead | stopWaited | stopTimeout | stopCancel | stopEnd =>
    simp [Service.step, returned] at steps

structure Service.Ended (count : Nat) (s : Service) : Prop where
  holds : s.StopHolds
  returned : s.stop = .returned
  launches : s.launches = count

theorem Service.Ended.step {count : Nat} {step : Step} (ended : s.Ended count)
    (orderly : s.Orderly step) (steps : s.step u step = some next) : next.Ended count := by
  obtain ⟨returned, launches⟩ := ended.holds.launches ended.returned steps
  exact ⟨ended.holds.step orderly steps, returned, launches.trans ended.launches⟩

theorem Service.Ended.inactive {count : Nat} (ended : s.Ended count) :
    s.status.state = .inactive := by
  have holds := ended.holds
  simp only [StopHolds, ended.returned] at holds
  exact holds.1

/-- In every run whose steps are orderly, once `StopService` has returned the unit is and stays inactive
and no further process of it is started. -/
theorem stop_final (u : ServiceUnit) {first rest : List Step} {middle last : Service}
    (orderly : Throughout (Service.step u) Service.Orderly (.launched u) (first ++ rest))
    (runs : run (Service.step u) (.launched u) first = some middle)
    (returned : middle.stop = .returned)
    (continues : run (Service.step u) middle rest = some last) :
    middle.status.state = .inactive ∧ last.status.state = .inactive ∧
      last.launches = middle.launches := by
  obtain ⟨orderlyFirst, orderlyRest⟩ := throughout_append orderly runs
  have start : (Service.launched u).StopHolds := trivial
  have holds : middle.StopHolds :=
    run_invariant (fun _ _ _ holds orderly steps => holds.step orderly steps) start orderlyFirst runs
  have ended : middle.Ended middle.launches := ⟨holds, returned, rfl⟩
  have endedLast : last.Ended middle.launches :=
    run_invariant (fun _ _ _ ended orderly steps => ended.step orderly steps) ended orderlyRest
      continues
  exact ⟨ended.inactive, endedLast.inactive, endedLast.launches⟩

def engine : ServiceUnit :=
  .plain "engine" [] []

def engineStarts : List Step :=
  List.replicate 7 .proceed

/-- `StopService` on the running unit; its process exits on SIGTERM. -/
def engineStops : List Step :=
  engineStarts ++ [.stopBegin, .stopRead, .childExits 0, .stopWaited, .stopCancel, .stopEnd]

theorem stop_running_engine :
    ∃ middle last, run (Service.step engine) (.launched engine) engineStops = some middle ∧
      run (Service.step engine) middle [.waitReturns true, .proceed] = some last ∧
      middle.stop = .returned ∧ middle.status.state = .inactive ∧
      last.status.state = .inactive ∧ last.launches = middle.launches := by
  obtain ⟨middle, runs, returned, goesOn⟩ := exists_run (P := fun middle => middle.stop = .returned ∧
    (run (Service.step engine) middle [.waitReturns true, .proceed]).isSome)
    (show (run (Service.step engine) (.launched engine) engineStops).any _ = true by decide)
  obtain ⟨last, continues⟩ := Option.isSome_iff_exists.mp goesOn
  exact ⟨middle, last, runs, continues, returned,
    stop_final engine (by decide) runs returned continues⟩

/-- `StopService` right after the launch finds no command, and the supervisor goes on. -/
theorem early_stop_not_final :
    (run (Service.step engine) (.launched engine) [.stopBegin, .stopRead, .stopEnd]).map
        (fun s => (s.stop, s.status.state, s.launches)) = some (.returned, .inactive, 0) ∧
      (run (Service.step engine) (.launched engine)
          ([.stopBegin, .stopRead, .stopEnd] ++ engineStarts)).map
        (fun s => (s.stop, s.status.state, s.launches)) = some (.returned, .running, 1) := by
  decide

/-! ### OOM kills -/

open Foundation.Machine (run Throughout run_cons_eq_some exists_run)

variable {u : ServiceUnit} {m next last : Monitored} {event : OomEvent} {events : List OomEvent}

def Monitored.Remembers (m : Monitored) : Prop := m.watchers.sum = m.logged.sum

theorem sum_set {watchers : List Nat} {watcher lastOOM : Nat} (here : watchers[watcher]? = some lastOOM) (count : Nat) :
    (watchers.set watcher count).sum = count + (watchers.eraseIdx watcher).sum ∧
      watchers.sum = lastOOM + (watchers.eraseIdx watcher).sum := by
  obtain ⟨within, rfl⟩ := List.getElem?_eq_some_iff.mp here
  have whole := congrArg List.sum (List.take_append_drop watcher watchers)
  rw [List.drop_eq_getElem_cons within, List.sum_append, List.sum_cons] at whole
  simp only [List.sum_set, List.eraseIdx_eq_take_drop_succ, List.sum_append, if_pos within]
  omega

theorem Monitored.remembers_of_step (remembers : m.Remembers) (steps : m.step u event = some next) :
    next.Remembers := by
  cases event with
  | act step added =>
    obtain ⟨service, -, rfl⟩ := Option.map_eq_some_iff.mp steps
    unfold Remembers at *
    split
    · simpa using remembers
    · exact remembers
  | kill =>
    cases steps
    exact remembers
  | tick watcher =>
    obtain ⟨lastOOM, here, rfl⟩ := Option.map_eq_some_iff.mp steps
    simp only [readOOMKill_eq]
    split
    · obtain ⟨set, sum⟩ := sum_set here m.kills
      unfold Remembers at *
      simp only [List.sum_append, List.sum_singleton]
      omega
    · exact remembers

/-- A step keeps the account just when nobody but the reporting goroutine has ever reported. -/
theorem Monitored.accounted_of_step (remembers : m.Remembers) (accounted : m.Accounted)
    (steps : m.step u event = some next) : next.Accounted ↔ ReportsAlone m event := by
  cases event with
  | act step added =>
    obtain ⟨service, -, rfl⟩ := Option.map_eq_some_iff.mp steps
    exact iff_of_true accounted trivial
  | kill =>
    cases steps
    exact iff_of_true (Nat.le_succ_of_le accounted) trivial
  | tick watcher =>
    obtain ⟨lastOOM, here, rfl⟩ := Option.map_eq_some_iff.mp steps
    have others : ReportsAlone m (.tick watcher) ↔ (lastOOM < m.kills → (m.watchers.eraseIdx watcher).sum = 0) := by
      simp only [ReportsAlone, here, Option.mem_some_iff, forall_eq', List.sum_eq_zero_iff_forall_eq_nat]
    simp only [others, readOOMKill_eq]
    split
    · rename_i news
      obtain ⟨-, sum⟩ := sum_set here m.kills
      unfold Remembers Accounted at *
      simp only [List.sum_append, List.sum_singleton]
      omega
    · rename_i old
      exact iff_of_true accounted fun news => absurd news old

theorem accounted_iff_of_remembers (remembers : m.Remembers) (accounted : m.Accounted)
    (runs : run (Monitored.step u) m events = some last) :
    (∀ front state, front <+: events → run (Monitored.step u) m front = some state → state.Accounted) ↔
      Throughout (Monitored.step u) ReportsAlone m events := by
  induction events generalizing m with
  | nil =>
    refine iff_of_true (fun front state isFront reached => ?_) trivial
    rw [List.prefix_nil.mp isFront] at reached
    cases reached
    exact accounted
  | cons event events ih =>
    obtain ⟨next, steps, rest⟩ := run_cons_eq_some.mp runs
    have later := ih (Monitored.remembers_of_step remembers steps)
    have here := Monitored.accounted_of_step remembers accounted steps
    constructor
    · intro always
      have kept : next.Accounted := always [event] next ⟨events, rfl⟩ (run_cons_eq_some.mpr ⟨next, steps, rfl⟩)
      refine ⟨here.mp kept, fun other taken => ?_⟩
      cases steps.symm.trans taken
      refine (later kept rest).mp fun front state isFront reached => ?_
      exact always (event :: front) state (List.cons_prefix_cons.mpr ⟨rfl, isFront⟩)
        (run_cons_eq_some.mpr ⟨next, steps, reached⟩)
    · rintro ⟨alone, others⟩ front state isFront reached
      cases front with
      | nil =>
        cases reached
        exact accounted
      | cons first front =>
        obtain ⟨rfl, begins⟩ := List.cons_prefix_cons.mp isFront
        obtain ⟨middle, taken, reached⟩ := run_cons_eq_some.mp reached
        cases steps.symm.trans taken
        exact (later (here.mpr alone) rest).mpr (others next steps) front state begins reached

/-- The reports of a run never sum to more than the counter just when each goroutine that reports is the only one
that has. -/
theorem oomKills_accounted_iff (runs : run (Monitored.step u) (.launched u) events = some last) :
    (∀ front state, front <+: events → run (Monitored.step u) (.launched u) front = some state → state.Accounted) ↔
      Throughout (Monitored.step u) ReportsAlone (.launched u) events :=
  accounted_iff_of_remembers rfl (Nat.le_refl 0) runs

def worker : ServiceUnit := .plain "worker" [] []

def starting : List OomEvent := List.replicate 5 (.act .proceed true)

/-- The process is started, its cgroup has an OOM kill, and the goroutine reports it. -/
def killedOnce : List OomEvent := starting ++ [.kill, .tick 0]

def killedTwice : List OomEvent := killedOnce ++ [.kill, .tick 0]

theorem killedTwice_accounted :
    ∃ last, run (Monitored.step worker) (.launched worker) killedTwice = some last ∧ last.logged = [1, 1] ∧
      last.Accounted := by
  obtain ⟨last, runs, reported⟩ := exists_run (P := fun m => m.logged = [1, 1])
    (show (run (Monitored.step worker) (.launched worker) killedTwice).any _ = true by decide +kernel)
  have alone : Throughout (Monitored.step worker) ReportsAlone (.launched worker) killedTwice := by decide +kernel
  exact ⟨last, runs, reported, (oomKills_accounted_iff runs).mpr alone killedTwice last (List.prefix_refl _) runs⟩

/-- The process is started again, and its goroutine reports the kill once more. -/
def killedAndRestarted : List OomEvent :=
  killedOnce ++ [.act .proceed true, .act .proceed true, .act (.childExits 137) true, .act (.waitReturns true) true,
    .act .proceed true, .act (.crashClock 0) true, .act .proceed true, .act .proceed true] ++ starting ++ [.tick 1]

theorem killedAndRestarted_not_accounted :
    ∃ last, run (Monitored.step worker) (.launched worker) killedAndRestarted = some last ∧
      last.kills = 1 ∧ last.logged = [1, 1] :=
  exists_run (by decide +kernel)

open List

variable {u : ServiceUnit}

/-- What a step may not meet: an attempt whose end makes a crash loop while it, or another one in the
window, ended in a spawn error, or while the crash-loop pause has followed another one in the window. -/
def Timed.Counted (u : ServiceUnit) (t : Timed) (tick : Tick) : Prop :=
  ∀ spawnError, t.ends tick = some spawnError →
    CrashLoop u.restart (t.attempts.map Attempt.ended) t.now →
      spawnError = false ∧
        ∀ earlier ∈ t.attempts, t.now - u.restart.crashLoopWindow ≤ earlier.ended →
          earlier.spawnError = false ∧ earlier.paused = false

variable {times : List Int} {attempts : List Attempt} {restart : Restart} {now : Int}
  {tick : Tick}

theorem dropWhile_lt_eq_filter (cutoff : Int) (ordered : times.Pairwise (· ≤ ·)) :
    times.dropWhile (· < cutoff) = times.filter (cutoff ≤ ·) := by
  induction times with
  | nil => rfl
  | cons first rest ih =>
    obtain ⟨least, orderedRest⟩ := pairwise_cons.mp ordered
    by_cases old : first < cutoff
    · simp [old, ih orderedRest, Int.not_le.mpr old]
    · have kept : ∀ time ∈ first :: rest, cutoff ≤ time := by grind
      rw [filter_eq_self.mpr (by simpa using kept)]
      simp [old]

/-- The ends of the attempts that `crashTimes` holds when nothing is trimmed: of the exits, those since
the last pause. -/
def remembered (attempts : List Attempt) : List Int :=
  attempts.foldl (fun times attempt =>
    if attempt.paused then [] else if attempt.spawnError then times else times ++ [attempt.ended]) []

theorem remembered_concat (attempts : List Attempt) (last : Attempt) :
    remembered (attempts ++ [last]) =
      if last.paused then [] else if last.spawnError then remembered attempts
      else remembered attempts ++ [last.ended] := by
  simp [remembered]

theorem remembered_sublist (attempts : List Attempt) :
    remembered attempts <+ attempts.map Attempt.ended := by
  induction attempts using List.reverseRecOn with
  | nil => exact .slnil
  | append_singleton attempts last ih =>
    rw [remembered_concat, map_append]
    split_ifs
    · exact nil_sublist _
    · exact ih.trans (sublist_append_left _ _)
    · exact ih.append (.refl _)

/-- When the attempts from the cutoff on are all exits and none of them was followed by a pause, they
are all remembered. -/
theorem filter_remembered {cutoff : Int}
    (ordered : (attempts.map Attempt.ended).Pairwise (· ≤ ·))
    (counted : ∀ attempt ∈ attempts, cutoff ≤ attempt.ended →
      attempt.spawnError = false ∧ attempt.paused = false) :
    (remembered attempts).filter (cutoff ≤ ·) =
      (attempts.map Attempt.ended).filter (cutoff ≤ ·) := by
  induction attempts using List.reverseRecOn with
  | nil => rfl
  | append_singleton attempts last ih =>
    rw [map_append, pairwise_append] at ordered
    obtain ⟨orderedEarlier, -, before⟩ := ordered
    by_cases inWindow : cutoff ≤ last.ended
    · obtain ⟨exited, notPaused⟩ := counted last (by simp) inWindow
      have same := ih orderedEarlier
        fun attempt member => counted attempt (mem_append_left _ member)
      simp [remembered_concat, exited, notPaused, same]
    · -- The newest attempt is older than the cutoff, and so are all others.
      have noneEnded : ((attempts ++ [last]).map Attempt.ended).filter (cutoff ≤ ·) = [] := by
        rw [filter_eq_nil_iff, map_append]
        intro time member
        rcases mem_append.mp member with earlier | newest
        · have := before time earlier last.ended (by simp)
          simp
          omega
        · rw [mem_singleton.mp newest]
          simpa using inWindow
      have noneRemembered := (remembered_sublist (attempts ++ [last])).filter (cutoff ≤ ·)
      rw [noneEnded, sublist_nil] at noneRemembered
      rw [noneRemembered, noneEnded]

variable {s after : Service}

@[simp] def Loop.Pausing : Loop → Prop
  | .crashLooping | .crashPausing => True
  | _ => False

inductive Service.Crashes (u : ServiceUnit) (s after : Service) : Step → Prop where
  /-- Crash-loop detection. -/
  | detect (now : Int) (loop : s.loop = .crashed)
      (times : after.crashTimes = addCrash u.restart s.crashTimes now)
      (goes : after.loop =
        if u.restart.crashLoopLimit ≤ after.crashTimes.length then .crashLooping else .counting) :
      Crashes u s after (.crashClock now)
  | pause (loop : s.loop = .crashLooping) (times : after.crashTimes = s.crashTimes)
      (goes : after.loop = .crashPausing) : Crashes u s after .proceed
  | resume (loop : s.loop = .crashPausing) (times : after.crashTimes = [])
      (goes : after.loop = .counting) : Crashes u s after .proceed
  | elsewhere {step : Step} (noDetection : ∀ now, step ≠ .crashClock now)
      (times : after.crashTimes = s.crashTimes)
      (goes : after.loop = s.loop ∨ after.loop = .returned ∨
        ¬ s.loop.Pausing ∧ s.loop ≠ .returned ∧ ¬ after.loop.Pausing) : Crashes u s after step

theorem Service.crashes_of_proceed (steps : s.proceed u = some after) :
    s.Crashes u after .proceed := by
  have noDetection : ∀ now, Step.proceed ≠ .crashClock now := by simp
  unfold Service.proceed at steps
  cases loop : s.loop <;> simp only [loop] at steps
  case crashLooping =>
    cases steps
    exact .pause loop rfl rfl
  case crashPausing =>
    cases steps
    exact .resume loop rfl rfl
  case waiting | crashed | returned => cases steps
  all_goals
    repeat' split at steps
    all_goals cases steps
    all_goals exact .elsewhere noDetection rfl (by grind [Loop.Pausing])

/-- The step is one of `restartLoop`. -/
def Step.isSupervisors : Step → Bool
  | .proceed | .spawnError _ | .contextDone | .waitReturns _ | .crashClock _ => true
  | .childWrites _ | .childCloses | .childExits _ | .listen | .stopBegin | .stopRead | .stopWaited
  | .stopTimeout | .stopCancel | .stopEnd => false

/-- What a step of the child, the listener or `stop` leaves as it is. -/
structure Service.Apart (s after : Service) : Prop where
  loop : after.loop = s.loop
  backoff : after.backoff = s.backoff
  crashTimes : after.crashTimes = s.crashTimes
  launches : after.launches = s.launches

theorem Service.apart_of_step {step : Step} (others : step.isSupervisors = false)
    (steps : s.step u step = some after) : s.Apart after := by
  cases step with
  | proceed | spawnError | contextDone | waitReturns | crashClock => cases others
  | _ =>
    simp only [Service.step] at steps
    repeat' split at steps
    all_goals cases steps
    all_goals exact ⟨rfl, rfl, rfl, rfl⟩

theorem Service.crashes_of_step {step : Step} (steps : s.step u step = some after) :
    s.Crashes u after step := by
  cases step with
  | proceed => exact crashes_of_proceed steps
  | crashClock now =>
    simp only [Service.step] at steps
    split at steps <;> cases steps
    rename_i loop
    exact .detect now loop rfl rfl
  | spawnError | contextDone | waitReturns =>
    simp only [Service.step] at steps
    repeat' split at steps
    all_goals cases steps
    all_goals exact .elsewhere (by simp) rfl (by simp_all)
  | _ =>
    have apart := Service.apart_of_step rfl steps
    exact .elsewhere (by simp) apart.crashTimes (.inl apart.loop)

/-- The current backoff stays, is doubled up to its maximum, or starts again; and only `cmd.Start` starts
a process. -/
theorem Service.backoff_and_launches_of_step {step : Step} (steps : s.step u step = some after) :
    (after.backoff = s.backoff ∨ after.backoff = u.restart.backoffInit ∨
      after.backoff = nextBackoff u.restart s.backoff) ∧
    (after.launches ≠ s.launches → s.loop = .forking) := by
  cases step with
  | proceed =>
    simp only [Service.step, Service.proceed] at steps
    repeat' split at steps
    all_goals cases steps
    all_goals simp_all
  | spawnError | contextDone | waitReturns | crashClock =>
    simp only [Service.step] at steps
    repeat' split at steps
    all_goals cases steps
    all_goals simp
  | _ =>
    have apart := Service.apart_of_step rfl steps
    exact ⟨.inl apart.backoff, fun starts => absurd apart.launches starts⟩

theorem nextBackoff_le (restart : Restart) (backoff : Int) :
    nextBackoff restart backoff ≤ restart.backoffMax := by
  unfold nextBackoff
  dsimp only
  split <;> omega

theorem Rested.mono {later : Int} (rested : Rested restart attempts now) (passes : now ≤ later) :
    Rested restart attempts later := by
  intro front last isFront looping
  have := rested front last isFront looping
  omega

theorem Rested.concat {last : Attempt}
    (rested : Rested restart attempts now)
    (newest : CrashLoop restart (attempts.map Attempt.ended) last.ended →
      last.ended + restart.crashLoopBackoff ≤ now) : Rested restart (attempts ++ [last]) now := by
  intro front other isFront looping
  rcases List.prefix_concat_iff.mp isFront with same | earlier
  · obtain ⟨rfl, sameLast⟩ := append_inj' same rfl
    cases sameLast
    exact newest looping
  · exact rested front other earlier looping

/-! ### The invariant of the supervisor's clockwork -/

/-- What holds between the attempts that have ended and what the supervisor remembers of them. -/
structure Timed.Watched (u : ServiceUnit) (t : Timed) : Prop where
  ordered : (t.attempts.map Attempt.ended).Pairwise (· ≤ ·)
  past : ∀ attempt ∈ t.attempts, attempt.ended ≤ t.now
  timesOrdered : t.service.crashTimes.Pairwise (· ≤ ·)
  timesPast : ∀ time ∈ t.service.crashTimes, time ≤ t.now
  /-- What a later window can still reach is remembered. -/
  kept : ¬ t.service.loop.Pausing → t.service.loop ≠ .returned →
    ∀ cutoff, t.now - u.restart.crashLoopWindow ≤ cutoff →
      t.service.crashTimes.filter (cutoff ≤ ·) = (remembered t.attempts).filter (cutoff ≤ ·)
  rested : ¬ t.service.loop.Pausing → t.service.loop ≠ .returned →
    Rested u.restart t.attempts t.now
  /-- During a pause only the newest attempt is waited for, and the timer is set for it. -/
  pausing : t.service.loop.Pausing → ∃ front last, t.attempts = front ++ [last] ∧
    last.paused = true ∧ Rested u.restart front t.now ∧
      (t.service.loop = .crashPausing → last.ended + u.restart.crashLoopBackoff ≤ t.deadline)

theorem Timed.watched_launched (u : ServiceUnit) (start : Int) : (Timed.launched u start).Watched u where
  ordered := .nil
  past := by simp [Timed.launched]
  timesOrdered := .nil
  timesPast := by simp [Timed.launched, Service.launched]
  kept := fun _ _ _ _ => rfl
  rested := by
    intro _ _ front last isFront
    simp [Timed.launched] at isFront
  pausing := False.elim

variable {t next : Timed}

theorem Timed.Watched.wait (watched : t.Watched u) (seconds : Nat) :
    Timed.Watched u { t with now := t.now + seconds } where
  ordered := watched.ordered
  past := fun attempt member => by have := watched.past attempt member; dsimp only; omega
  timesOrdered := watched.timesOrdered
  timesPast := fun time member => by have := watched.timesPast time member; dsimp only; omega
  kept := fun notPausing working cutoff reached =>
    watched.kept notPausing working cutoff (by dsimp only at reached; omega)
  rested := fun notPausing working => (watched.rested notPausing working).mono (by dsimp only; omega)
  pausing := fun pausing => by
    obtain ⟨front, last, split, paused, rested, timer⟩ := watched.pausing pausing
    exact ⟨front, last, split, paused, rested.mono (by dsimp only; omega), timer⟩

theorem pairwise_concat_now (ordered : times.Pairwise (· ≤ ·))
    (past : ∀ time ∈ times, time ≤ now) : (times ++ [now]).Pairwise (· ≤ ·) := by
  rw [pairwise_append]
  refine ⟨ordered, pairwise_singleton _ _, fun time member newest here => ?_⟩
  rw [mem_singleton.mp here]
  exact past time member

theorem Timed.Watched.addCrash_eq (watched : t.Watched u) :
    addCrash u.restart t.service.crashTimes t.now =
      (t.service.crashTimes ++ [t.now]).filter (t.now - u.restart.crashLoopWindow ≤ ·) :=
  dropWhile_lt_eq_filter _ (pairwise_concat_now watched.timesOrdered watched.timesPast)

/-- When the attempts of the window are all remembered, the breaker sees every crash loop. -/
theorem Timed.Watched.detects (watched : t.Watched u) (notPausing : ¬ t.service.loop.Pausing)
    (working : t.service.loop ≠ .returned)
    (counted : ∀ earlier ∈ t.attempts, t.now - u.restart.crashLoopWindow ≤ earlier.ended →
      earlier.spawnError = false ∧ earlier.paused = false)
    (looping : CrashLoop u.restart (t.attempts.map Attempt.ended) t.now) :
    u.restart.crashLoopLimit ≤ (addCrash u.restart t.service.crashTimes t.now).length := by
  rw [watched.addCrash_eq, filter_append, watched.kept notPausing working _ le_rfl,
    filter_remembered watched.ordered counted, ← filter_append]
  exact looping

theorem Timed.Watched.record (watched : t.Watched u) (tick : Tick) (after : Service) :
    ((t.record tick after).map Attempt.ended).Pairwise (· ≤ ·) ∧
      ∀ attempt ∈ t.record tick after, attempt.ended ≤ t.now := by
  unfold Timed.record
  cases t.ends tick with
  | none => exact ⟨watched.ordered, watched.past⟩
  | some spawnError =>
    refine ⟨?_, fun attempt member => ?_⟩
    · rw [map_append]
      refine pairwise_concat_now watched.ordered fun time earlier => ?_
      obtain ⟨attempt, member, rfl⟩ := mem_map.mp earlier
      exact watched.past attempt member
    · rcases mem_append.mp member with earlier | newest
      · exact watched.past attempt earlier
      · rw [mem_singleton.mp newest]

theorem Timed.spawns_of_ends {step : Step} (ends : t.ends (.act step) = some true)
    (steps : t.service.step u step = some after) :
    ¬ t.service.loop.Pausing ∧ t.service.loop ≠ .returned ∧ ∃ text, after.loop = .spawnFailed text := by
  cases step with
  | spawnError text =>
    simp only [Service.step] at steps
    split at steps <;> cases steps
    all_goals
      rename_i loop
      simp [loop]
  | proceed =>
    simp only [Timed.ends, Option.ite_none_right_eq_some] at ends
    obtain ⟨⟨loop, cancelled⟩, -⟩ := ends
    simp only [Service.step, Service.proceed, loop, cancelled] at steps
    cases steps
    simp [loop]
  | _ => cases ends

theorem Timed.Watched.detect (watched : t.Watched u) (loop : t.service.loop = .crashed)
    (counted : t.Counted u (.act (.crashClock t.now)))
    (times : after.crashTimes = addCrash u.restart t.service.crashTimes t.now)
    (goes : after.loop =
      if u.restart.crashLoopLimit ≤ after.crashTimes.length then .crashLooping else .counting) :
    Timed.Watched u { t with
      service := after
      deadline := t.timer u after
      attempts := t.record (.act (.crashClock t.now)) after } := by
  have notPausing : ¬ t.service.loop.Pausing := by simp [loop]
  have working : t.service.loop ≠ .returned := by simp [loop]
  obtain ⟨ordered, past⟩ := watched.record (.act (.crashClock t.now)) after
  have timesFilter := times.trans watched.addCrash_eq
  have timesBound : ∀ time ∈ after.crashTimes, time ≤ t.now := by
    intro time member
    rw [timesFilter] at member
    rcases mem_append.mp (mem_of_mem_filter member) with earlier | newest
    · exact watched.timesPast time earlier
    · rw [mem_singleton.mp newest]
  have timesOrdered : after.crashTimes.Pairwise (· ≤ ·) := by
    rw [timesFilter]
    exact (pairwise_concat_now watched.timesOrdered watched.timesPast).filter _
  by_cases trips : u.restart.crashLoopLimit ≤ after.crashTimes.length
  · rw [if_pos trips] at goes
    refine ⟨ordered, past, timesOrdered, timesBound, ?_, ?_, fun _ => ?_⟩
    · simp [goes]
    · simp [goes]
    · refine ⟨t.attempts, { ended := t.now, spawnError := false, paused := true }, ?_, rfl,
        watched.rested notPausing working, ?_⟩
      · simp [Timed.record, Timed.ends, goes]
      · simp [goes]
  · rw [if_neg trips] at goes
    have attempts : t.record (.act (.crashClock t.now)) after =
        t.attempts ++ [{ ended := t.now, spawnError := false, paused := false }] := by
      simp [Timed.record, Timed.ends, goes]
    refine ⟨ordered, past, timesOrdered, timesBound, fun _ _ cutoff reached => ?_, fun _ _ => ?_, ?_⟩
    · -- The trimmed times are all before the cutoff.
      dsimp only at reached ⊢
      have trimmed : (fun time => decide (cutoff ≤ time) &&
          decide (t.now - u.restart.crashLoopWindow ≤ time)) = fun time => decide (cutoff ≤ time) := by
        funext time
        simp
        omega
      rw [attempts, remembered_concat, timesFilter, filter_filter, trimmed]
      simp [watched.kept notPausing working cutoff reached]
    · dsimp only
      refine (watched.rested notPausing working).concat fun looping => ?_
      obtain ⟨-, allCounted⟩ := counted false rfl looping
      rw [times] at trips
      exact absurd (watched.detects notPausing working allCounted looping) trips
    · simp [goes]

theorem Timed.Watched.elsewhere {step : Step} (watched : t.Watched u)
    (steps : t.service.step u step = some after) (counted : t.Counted u (.act step))
    (noDetection : ∀ now, step ≠ .crashClock now)
    (times : after.crashTimes = t.service.crashTimes)
    (goes : after.loop = t.service.loop ∨ after.loop = .returned ∨
      ¬ t.service.loop.Pausing ∧ t.service.loop ≠ .returned ∧ ¬ after.loop.Pausing) :
    Timed.Watched u { t with
      service := after
      deadline := t.timer u after
      attempts := t.record (.act step) after } := by
  obtain ⟨ordered, past⟩ := watched.record (.act step) after
  have timesOrdered : after.crashTimes.Pairwise (· ≤ ·) := times ▸ watched.timesOrdered
  have timesPast : ∀ time ∈ after.crashTimes, time ≤ t.now := times ▸ watched.timesPast
  -- What is known outside of a pause carries over from the place the step comes from.
  have origin : ¬ after.loop.Pausing → after.loop ≠ .returned →
      ¬ t.service.loop.Pausing ∧ t.service.loop ≠ .returned := by
    intro notPausing working
    rcases goes with same | returns | ⟨before, beforeWorking, -⟩
    · rw [← same]
      exact ⟨notPausing, working⟩
    · exact absurd returns working
    · exact ⟨before, beforeWorking⟩
  cases ends : t.ends (.act step) with
  | none =>
    have attempts : t.record (.act step) after = t.attempts := by simp [Timed.record, ends]
    refine ⟨ordered, past, timesOrdered, timesPast, fun notPausing working => ?_,
      fun notPausing working => ?_, fun pausing => ?_⟩
    · obtain ⟨before, beforeWorking⟩ := origin notPausing working
      rw [attempts, times]
      exact watched.kept before beforeWorking
    · obtain ⟨before, beforeWorking⟩ := origin notPausing working
      rw [attempts]
      exact watched.rested before beforeWorking
    · have same : after.loop = t.service.loop := by
        rcases goes with same | returns | ⟨-, -, notPausing⟩
        · exact same
        · simp [returns] at pausing
        · exact absurd pausing notPausing
      rw [attempts, same, Timed.timer, if_pos same]
      exact watched.pausing (same ▸ pausing)
  | some spawnError =>
    cases spawnError with
    | false =>
      exfalso
      cases step with
      | crashClock now => exact noDetection now rfl
      | _ => simp [Timed.ends] at ends
    | true =>
      obtain ⟨before, beforeWorking, text, reports⟩ := Timed.spawns_of_ends ends steps
      have attempts : t.record (.act step) after =
          t.attempts ++ [{ ended := t.now, spawnError := true, paused := false }] := by
        simp [Timed.record, ends, reports]
      refine ⟨ordered, past, timesOrdered, timesPast, fun _ _ => ?_, fun _ _ => ?_, ?_⟩
      · dsimp only
        rw [attempts, times, remembered_concat]
        exact watched.kept before beforeWorking
      · dsimp only
        rw [attempts]
        refine (watched.rested before beforeWorking).concat fun looping => ?_
        obtain ⟨exited, -⟩ := counted true ends looping
        cases exited
      · simp [reports]

theorem Timed.Watched.act {step : Step} (watched : t.Watched u)
    (steps : t.service.step u step = some after) (due : t.due step = true)
    (counted : t.Counted u (.act step)) :
    Timed.Watched u { t with
      service := after
      deadline := t.timer u after
      attempts := t.record (.act step) after } := by
  cases Service.crashes_of_step steps with
  | detect now loop times goes =>
    simp only [Timed.due, decide_eq_true_eq] at due
    subst due
    exact watched.detect loop counted times goes
  | pause loop times goes =>
    have attempts : t.record (.act .proceed) after = t.attempts := by
      simp [Timed.record, Timed.ends, loop]
    have timer : t.timer u after = t.now + u.restart.crashLoopBackoff := by
      simp [Timed.timer, goes, loop]
    obtain ⟨front, last, split, paused, rested, -⟩ :=
      watched.pausing (by simp [loop])
    refine ⟨attempts ▸ watched.ordered, attempts ▸ watched.past, times ▸ watched.timesOrdered,
      times ▸ watched.timesPast, ?_, ?_, fun _ => ⟨front, last, ?_, paused, rested, fun _ => ?_⟩⟩
    · simp [goes]
    · simp [goes]
    · exact attempts.trans split
    · have := watched.past last (by simp [split])
      dsimp only
      omega
  | resume loop times goes =>
    have attempts : t.record (.act .proceed) after = t.attempts := by
      simp [Timed.record, Timed.ends, loop]
    simp only [Timed.due, loop, decide_eq_true_eq] at due
    obtain ⟨front, last, split, paused, rested, timer⟩ :=
      watched.pausing (by simp [loop])
    refine ⟨attempts ▸ watched.ordered, attempts ▸ watched.past, by simp [times], by simp [times],
      fun _ _ _ _ => ?_, fun _ _ => ?_, ?_⟩
    · simp [attempts, times, split, remembered_concat, paused]
    · dsimp only
      rw [attempts, split]
      exact rested.concat fun _ => (timer loop).trans due
    · simp [goes]
  | elsewhere noDetection times goes =>
    exact watched.elsewhere steps counted noDetection times goes

theorem Timed.Watched.step (watched : t.Watched u) (counted : t.Counted u tick)
    (steps : t.step u tick = some next) : next.Watched u := by
  cases tick with
  | wait seconds =>
    cases steps
    exact watched.wait seconds
  | act step =>
    simp only [Timed.step, Option.ite_none_right_eq_some, Option.map_eq_some_iff] at steps
    obtain ⟨due, after, steps, rfl⟩ := steps
    exact watched.act steps due counted

theorem Timed.backoff_le_of_step (initial : u.restart.backoffInit ≤ u.restart.backoffMax)
    (bounded : t.service.backoff ≤ u.restart.backoffMax) (steps : t.step u tick = some next) :
    next.service.backoff ≤ u.restart.backoffMax := by
  cases tick with
  | wait seconds =>
    cases steps
    exact bounded
  | act step =>
    simp only [Timed.step, Option.ite_none_right_eq_some, Option.map_eq_some_iff] at steps
    obtain ⟨-, after, steps, rfl⟩ := steps
    rcases (Service.backoff_and_launches_of_step steps).1 with same | again | doubled
    · exact same.trans_le bounded
    · exact again.trans_le initial
    · exact doubled.trans_le (nextBackoff_le _ _)

/-- The time the select of an ordinary restart waits for its timer; one that is negative fires at once. -/
def Service.ordinaryWait (s : Service) : Int :=
  max 0 s.backoff

/-- In a run in which every attempt that makes a crash loop is an exit among exits since the last pause,
no process is started before the unit has rested, and no ordinary wait is longer than `BackoffMax`. -/
theorem crash_loop_rests (u : ServiceUnit) (start : Int) {ticks : List Tick} {t : Timed}
    (initial : u.restart.backoffInit ≤ u.restart.backoffMax) (maximal : 0 ≤ u.restart.backoffMax)
    (counted : Throughout (Timed.step u) (Timed.Counted u) (.launched u start) ticks)
    (runs : run (Timed.step u) (.launched u start) ticks = some t) :
    (∀ tick next, t.step u tick = some next → next.service.launches ≠ t.service.launches →
      Rested u.restart t.attempts t.now) ∧
    (t.service.loop = .backingOff → t.service.ordinaryWait ≤ u.restart.backoffMax) := by
  have watched : t.Watched u :=
    run_invariant (fun _ _ _ watched met steps => watched.step met steps)
      (Timed.watched_launched u start) counted runs
  have bounded : t.service.backoff ≤ u.restart.backoffMax :=
    run_invariant (fun _ _ _ bounded _ steps => Timed.backoff_le_of_step initial bounded steps)
      initial counted runs
  refine ⟨fun tick next steps starts => ?_, fun _ => ?_⟩
  · cases tick with
    | wait seconds =>
      cases steps
      exact absurd rfl starts
    | act step =>
      simp only [Timed.step, Option.ite_none_right_eq_some, Option.map_eq_some_iff] at steps
      obtain ⟨-, after, steps, rfl⟩ := steps
      have loop : t.service.loop = .forking := (Service.backoff_and_launches_of_step steps).2 starts
      exact watched.rested (by simp [loop]) (by simp [loop])
  · exact max_le maximal bounded

instance (t : Timed) : DecidablePred (t.Counted u) := fun _ =>
  inferInstanceAs (Decidable (∀ spawnError : Bool, _ = some spawnError → CrashLoop _ _ _ → _ ∧ _))

def flaky : ServiceUnit :=
  { ServiceUnit.plain "flaky" [] [] with
    restart := { (ServiceUnit.plain "flaky" [] []).restart with crashLoopLimit := 2 } }

/-- From the head of the loop until the process runs, its exit with status one at this time, and crash
detection. -/
def crashRound (now : Int) : List Tick :=
  List.replicate 7 (.act .proceed) ++
    [.act (.childExits 1), .act (.waitReturns true), .act .proceed, .act (.crashClock now)]

/-- Two crashes in a row, the pause, and the next round up to `cmd.Start`. -/
def crashesTwice : List Tick :=
  crashRound 0 ++ [.act .proceed, .wait 1, .act .proceed] ++ crashRound 1 ++
    [.act .proceed, .wait 120, .act .proceed, .act .proceed, .wait 1] ++
    List.replicate 4 (.act .proceed)

theorem crashesTwice_rests :
    ∃ t next, run (Timed.step flaky) (.launched flaky 0) crashesTwice = some t ∧
      t.step flaky (.act .proceed) = some next ∧ next.service.launches ≠ t.service.launches ∧
      t.attempts.map Attempt.ended = [0, 1] ∧ t.now = 122 ∧
      Rested flaky.restart t.attempts t.now := by
  obtain ⟨t, runs, goesOn, ends, now⟩ := exists_run (P := fun t => (t.step flaky (.act .proceed)).any
      (·.service.launches ≠ t.service.launches) = true ∧
    t.attempts.map Attempt.ended = [0, 1] ∧ t.now = 122)
    (show (run (Timed.step flaky) (.launched flaky 0) crashesTwice).any _ = true by decide +kernel)
  obtain ⟨next, steps, starts⟩ := (Option.any_eq_true _ _).mp goesOn
  obtain ⟨rests, -⟩ := crash_loop_rests flaky 0 (by decide) (by decide) (by decide +kernel) runs
  exact ⟨t, next, runs, steps, of_decide_eq_true starts, ends, now,
    rests _ next steps (of_decide_eq_true starts)⟩

def broken : ServiceUnit :=
  .plain "broken" [] []

def spawnErrorRound (wait : Nat) : List Tick :=
  [.act .proceed, .act .proceed, .act (.spawnError "no such file or directory"), .act .proceed,
    .act .proceed, .wait wait, .act .proceed]

/-- Five spawn errors in fifteen seconds, and the next round up to `cmd.Start`. -/
def spawnErrors : List Tick :=
  [1, 2, 4, 8, 16].flatMap spawnErrorRound ++ List.replicate 3 (.act .proceed)

/-- Spawn errors are not counted: sixteen seconds after the fifth one the next process is started. -/
theorem spawnErrors_not_rested :
    ∃ t next, run (Timed.step broken) (.launched broken 0) spawnErrors = some t ∧
      t.step broken (.act .proceed) = some next ∧ next.service.launches ≠ t.service.launches ∧
      ¬ Rested broken.restart t.attempts t.now := by
  obtain ⟨t, runs, goesOn, ends, now⟩ := exists_run (P := fun t => (t.step broken (.act .proceed)).any
      (·.service.launches ≠ t.service.launches) = true ∧
    t.attempts = [0, 1, 3, 7].map (fun ended => { ended, spawnError := true, paused := false }) ++
      [{ ended := 15, spawnError := true, paused := false }] ∧ t.now = 31)
    (show (run (Timed.step broken) (.launched broken 0) spawnErrors).any _ = true by decide +kernel)
  obtain ⟨next, steps, starts⟩ := (Option.any_eq_true _ _).mp goesOn
  refine ⟨t, next, runs, steps, of_decide_eq_true starts, fun rested => ?_⟩
  rw [ends, now] at rested
  have := rested _ _ List.prefix_rfl (by decide)
  revert this
  decide

end NuraOS.Lifecycle
