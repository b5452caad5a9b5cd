/-
Purpose: The event bus (`services/internal/eventbus/eventbus.go`), and what its subscribers receive.
-/
import NuraOS.Foundation.Machine

namespace NuraOS.EventBus

/-- `DefaultSubBufSize`. -/
def defaultSubBufSize : Nat := 256

/-- How far a subscriber is: `cancel` first removes it from the bus and then closes its channel. -/
inductive Phase where
  | absent
  | subscribed
  | removed
  | closed
deriving DecidableEq

/-- A subscriber with its channel, and a record of what happened to it. -/
structure Subscriber (Event : Type) where
  phase : Phase := .absent
  cap : Nat := 0
  queue : List Event := []
  /-- What was published between its `Subscribe` and its `cancel`, in the order of the lock. -/
  between : List Event := []
  /-- What `Publish` came to send to it, with the number of events in the queue at that time. -/
  offered : List (Event × Nat) := []
  received : List Event := []

/-- The bus; `publishing` is the loop of the `Publish` that holds the lock. -/
structure Bus (Event : Type) where
  subs : List Nat := []
  next : Nat := 0
  subscriber : Nat → Subscriber Event := fun _ => {}
  publishing : Option (Event × List Nat) := none
  panicked : Bool := false

inductive Step (Event : Type) where
  | subscribe (bufSize : Int)
  | lock (ev : Event)
  | send
  | unlock
  | receive (id : Nat)
  | remove (id : Nat)
  | close (id : Nat)

variable {Event : Type}

def Subscriber.publish (s : Subscriber Event) (ev : Event) : Subscriber Event :=
  if s.phase = .subscribed then { s with between := s.between ++ [ev] } else s

/-- The `select` of `Publish`. -/
def Subscriber.offer (s : Subscriber Event) (ev : Event) : Subscriber Event :=
  { s with
    queue := if s.queue.length < s.cap then s.queue ++ [ev] else s.queue
    offered := s.offered ++ [(ev, s.queue.length)] }

def Bus.set (b : Bus Event) (id : Nat) (s : Subscriber Event) : Nat → Subscriber Event :=
  fun other => if other = id then s else b.subscriber other

def Bus.step (b : Bus Event) : Step Event → Option (Bus Event)
  | .subscribe bufSize =>
    if b.publishing.isSome then none
    else
      some { b with
        subs := b.subs ++ [b.next]
        next := b.next + 1
        subscriber := b.set b.next
          { phase := .subscribed, cap := if bufSize ≤ 0 then defaultSubBufSize else bufSize.toNat } }
  | .lock ev =>
    if b.publishing.isSome then none
    else
      some { b with
        publishing := some (ev, b.subs)
        subscriber := fun id => (b.subscriber id).publish ev }
  | .send =>
    match b.publishing with
    | some (ev, id :: rest) =>
      if (b.subscriber id).phase = .closed then some { b with panicked := true }
      else some { b with publishing := some (ev, rest), subscriber := b.set id ((b.subscriber id).offer ev) }
    | _ => none
  | .unlock =>
    match b.publishing with
    | some (_, []) => some { b with publishing := none }
    | _ => none
  -- What is left in a closed channel is still received.
  | .receive id =>
    match (b.subscriber id).queue with
    | ev :: queue =>
      some { b with
        subscriber := b.set id
          { b.subscriber id with queue := queue, received := (b.subscriber id).received ++ [ev] } }
    | [] => none
  | .remove id =>
    if b.publishing.isSome ∨ (b.subscriber id).phase ≠ .subscribed then none
    else
      some { b with
        subs := b.subs.erase id
        subscriber := b.set id { b.subscriber id with phase := .removed } }
  | .close id =>
    if (b.subscriber id).phase = .removed then
      some { b with subscriber := b.set id { b.subscriber id with phase := .closed } }
    else none

open List Foundation.Machine

variable {Event : Type} {b next : Bus Event} {label : Step Event}

/-- The slice has the subscribers that are not removed, once each, and the loop goes over it. -/
structure Consistent (b : Bus Event) : Prop where
  nodup : b.subs.Nodup
  phase : ∀ id, (b.subscriber id).phase = .subscribed ↔ id ∈ b.subs
  fresh : ∀ id, b.next ≤ id → (b.subscriber id).phase = .absent
  loop : ∀ ev ids, b.publishing = some (ev, ids) → ids <+ b.subs
  calm : b.panicked = false

theorem Consistent.step (consistent : Consistent b) (steps : b.step label = some next) : Consistent next := by
  obtain ⟨nodup, phase, fresh, loop, calm⟩ := consistent
  cases label <;> simp only [Bus.step] at steps
  all_goals
    repeat' split at steps
    all_goals cases steps
    all_goals constructor <;> grind [Bus.set, Subscriber.publish, Subscriber.offer]

/-- The event that the loop of `Publish` has not yet come to send to a subscriber. -/
def Bus.pending (b : Bus Event) (id : Nat) : List Event :=
  match b.publishing with
  | some (ev, rest) => if id ∈ rest then [ev] else []
  | none => []

/-- What was published meanwhile was offered in its order, and what was offered while the queue had
room is received in that order. -/
structure Delivered (b : Bus Event) : Prop where
  offered : ∀ id, (b.subscriber id).offered.map (·.1) ++ b.pending id = (b.subscriber id).between
  received : ∀ id, ((b.subscriber id).offered.filter (·.2 < (b.subscriber id).cap)).map (·.1) =
    (b.subscriber id).received ++ (b.subscriber id).queue

theorem Delivered.step (delivered : Delivered b) (consistent : Consistent b)
    (steps : b.step label = some next) : Delivered next := by
  obtain ⟨nodup, phase, fresh, loop, -⟩ := consistent
  obtain ⟨offered, received⟩ := delivered
  cases label <;> simp only [Bus.step] at steps
  case send =>
    repeat' split at steps
    all_goals cases steps
    · exact ⟨offered, received⟩
    · rename_i ev id rest publishing notClosed
      -- The slice has it once, so the loop does not come to it again.
      have once : id ∉ rest := (nodup_cons.mp ((loop ev _ publishing).nodup nodup)).1
      refine ⟨fun other => ?_, fun other => ?_⟩
      · have := offered other
        grind [Bus.set, Bus.pending, Subscriber.offer]
      · have before := received other
        by_cases same : other = id
        · subst same
          by_cases room : (b.subscriber other).queue.length < (b.subscriber other).cap <;>
            simp [Bus.set, Subscriber.offer, room, before]
        · simpa [Bus.set, same] using before
  case receive id =>
    split at steps <;> cases steps
    rename_i ev queue found
    refine ⟨fun other => ?_, fun other => ?_⟩
    · grind [Bus.set, Bus.pending]
    · have := received other
      grind [Bus.set]
  all_goals
    repeat' split at steps
    all_goals cases steps
    all_goals constructor <;> grind [Bus.set, Bus.pending, Subscriber.publish]

theorem Delivered.sublist (delivered : Delivered b) (id : Nat) :
    (b.subscriber id).received <+ (b.subscriber id).between := by
  rw [← delivered.offered id]
  refine .trans ?_ (sublist_append_left _ _)
  exact (sublist_append_left _ _).trans (delivered.received id ▸ filter_sublist.map _)

/-- Along every run, no send comes to a closed channel, and a subscriber receives in their order events
published between its `Subscribe` and its `cancel`, all but those that came when its queue was full. -/
theorem delivery (labels : List (Step Event)) (last : Bus Event) (runs : run Bus.step {} labels = some last) :
    last.panicked = false ∧ Delivered last ∧
      ∀ id, (last.subscriber id).received <+ (last.subscriber id).between := by
  have start : Consistent ({} : Bus Event) ∧ Delivered ({} : Bus Event) := by
    refine ⟨⟨?_, ?_, ?_, ?_, ?_⟩, ?_, ?_⟩ <;> simp [Bus.pending]
  have kept : ∀ (b : Bus Event) label next, Consistent b ∧ Delivered b → True → b.step label = some next →
      Consistent next ∧ Delivered next :=
    fun _ _ _ ⟨consistent, delivered⟩ _ steps => ⟨consistent.step steps, delivered.step consistent steps⟩
  obtain ⟨consistent, delivered⟩ :=
    run_invariant kept start (throughout_of_always (fun _ _ _ => trivial) _) runs
  exact ⟨consistent.calm, delivered, delivered.sublist⟩

/-- The second event finds the queue full, and the third comes after the `cancel`. -/
def threeEvents : List (Step Nat) :=
  [.subscribe 1, .lock 7, .send, .unlock, .lock 8, .send, .unlock, .receive 0, .remove 0, .lock 9, .unlock,
    .close 0]

theorem delivery_threeEvents :
    ∃ last, run Bus.step {} threeEvents = some last ∧ (last.subscriber 0).received = [7] ∧
      last.panicked = false ∧ Delivered last := by
  obtain ⟨last, runs, received⟩ := exists_run
    (show ((run Bus.step {} threeEvents).any fun last => (last.subscriber 0).received = [7]) = true by decide)
  obtain ⟨calm, delivered, -⟩ := delivery threeEvents last runs
  exact ⟨last, runs, received, calm, delivered⟩

end NuraOS.EventBus
