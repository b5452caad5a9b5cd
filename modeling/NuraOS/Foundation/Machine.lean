/-
Purpose: Runs of a machine with labelled steps: invariants along them, mutual exclusion by a lock, and what
  was seen since a state was entered; iterators, and following a partial function.
-/
import Mathlib.Data.Finset.Card

namespace Foundation.Machine

variable {State Label : Type*} {step : State → Label → Option State}

/-- Take the steps one after the other; nothing when one of them is not possible. -/
def run (step : State → Label → Option State) : State → List Label → Option State
  | state, [] => some state
  | state, label :: labels => (step state label).bind fun next => run step next labels

/-- Each step of the run is taken in a state in which the condition allows it. -/
def Throughout (step : State → Label → Option State) (condition : State → Label → Prop) :
    State → List Label → Prop
  | _, [] => True
  | state, label :: labels =>
    condition state label ∧ ∀ next, step state label = some next → Throughout step condition next labels

@[simp] theorem run_nil (state : State) : run step state [] = some state := rfl

variable {state last : State}

theorem run_cons_eq_some {label : Label} {labels : List Label} :
    run step state (label :: labels) = some last ↔
      ∃ next, step state label = some next ∧ run step next labels = some last := by
  rw [run, Option.bind_eq_some_iff]

theorem run_append_eq_some {first second : List Label} :
    run step state (first ++ second) = some last ↔
      ∃ middle, run step state first = some middle ∧ run step middle second = some last := by
  induction first generalizing state with
  | nil => simp
  | cons label first ih =>
    rw [List.cons_append, run_cons_eq_some]
    constructor
    · rintro ⟨next, steps, runs⟩
      obtain ⟨middle, runsFirst, runsSecond⟩ := ih.mp runs
      exact ⟨middle, run_cons_eq_some.mpr ⟨next, steps, runsFirst⟩, runsSecond⟩
    · rintro ⟨middle, runsFirst, runsSecond⟩
      obtain ⟨next, steps, runs⟩ := run_cons_eq_some.mp runsFirst
      exact ⟨next, steps, ih.mpr ⟨middle, runs, runsSecond⟩⟩

theorem exists_run {P : State → Prop} [DecidablePred P] {state : State} {labels : List Label}
    (found : (run step state labels).any P = true) : ∃ last, run step state labels = some last ∧ P last := by
  simpa [Option.any_eq_true] using found

section Invariants

variable {condition : State → Label → Prop} {Invariant : State → Prop}

variable {state : State} {labels : List Label}

theorem run_invariant
    (kept : ∀ state label next, Invariant state → condition state label →
      step state label = some next → Invariant next)
    {last : State} (holds : Invariant state)
    (meets : Throughout step condition state labels) (runs : run step state labels = some last) :
    Invariant last := by
  induction labels generalizing state with
  | nil =>
    cases runs
    exact holds
  | cons label labels ih =>
    obtain ⟨next, steps, rest⟩ := run_cons_eq_some.mp runs
    exact ih (kept state label next holds meets.1 steps) (meets.2 next steps) rest

theorem throughout_of_always (always : ∀ label ∈ labels, ∀ state, condition state label)
    (state : State) : Throughout step condition state labels := by
  induction labels generalizing state with
  | nil => trivial
  | cons label labels ih =>
    obtain ⟨first, rest⟩ := List.forall_mem_cons.mp always
    exact ⟨first state, fun next _ => ih rest next⟩

theorem throughout_of_forall {allowed : Label → Prop} (all : ∀ label ∈ labels, allowed label)
    (state : State) : Throughout step (fun _ => allowed) state labels :=
  throughout_of_always (fun label member _ => all label member) state

theorem throughout_and {also : State → Label → Prop}
    (first : Throughout step condition state labels) (second : Throughout step also state labels) :
    Throughout step (fun state label => condition state label ∧ also state label) state labels := by
  induction labels generalizing state with
  | nil => trivial
  | cons label labels ih =>
    exact ⟨⟨first.1, second.1⟩, fun next steps =>
      ih (first.2 next steps) (second.2 next steps)⟩

/-- A run that meets the condition throughout does so up to each point and from it on. -/
theorem throughout_append {middle : State} {first second : List Label}
    (meets : Throughout step condition state (first ++ second))
    (runs : run step state first = some middle) :
    Throughout step condition state first ∧ Throughout step condition middle second := by
  induction first generalizing state with
  | nil =>
    cases runs
    exact ⟨trivial, meets⟩
  | cons label first ih =>
    obtain ⟨next, steps, rest⟩ := run_cons_eq_some.mp runs
    obtain ⟨-, second⟩ := ih (meets.2 next steps) rest
    refine ⟨⟨meets.1, fun other taken => ?_⟩, second⟩
    rw [steps] at taken
    cases taken
    exact (ih (meets.2 next steps) rest).1

instance decidableThroughout [∀ state, DecidablePred (condition state)] :
    ∀ (labels : List Label) (state : State), Decidable (Throughout step condition state labels)
  | [], _ => .isTrue trivial
  | label :: labels, state =>
    match taken : step state label with
    | none =>
      decidable_of_iff (condition state label)
        ⟨fun met => ⟨met, fun _ steps => by rw [taken] at steps; cases steps⟩, And.left⟩
    | some next =>
      have := decidableThroughout labels next
      decidable_of_iff (condition state label ∧ Throughout step condition next labels)
        ⟨fun met => ⟨met.1, fun _ steps => by rw [taken] at steps; cases steps; exact met.2⟩,
          fun met => ⟨met.1, met.2 next taken⟩⟩

end Invariants

end Foundation.Machine

namespace Foundation

variable {Id Point : Type*} [DecidableEq Id]

def Exclusive (critical : Point → Prop) (holder : Option Id) (points : Id → Point) : Prop :=
  ∀ id, critical (points id) ↔ holder = some id

namespace Exclusive

variable {critical : Point → Prop} {holder : Option Id} {points : Id → Point} {id : Id} {point : Point}

theorem lock (exclusive : Exclusive critical none points) (enters : critical point) :
    Exclusive critical (some id) (Function.update points id point) := by
  intro other
  by_cases same : other = id
  · subst same
    simp [enters]
  · have outside := exclusive other
    simp [same, outside, Ne.symm same]

theorem unlock (exclusive : Exclusive critical (some id) points) (leaves : ¬ critical point) :
    Exclusive critical none (Function.update points id point) := by
  intro other
  by_cases same : other = id
  · subst same
    simp [leaves]
  · have outside := exclusive other
    simp [same, outside, Ne.symm same]

theorem move (exclusive : Exclusive critical holder points)
    (stays : critical point ↔ critical (points id)) :
    Exclusive critical holder (Function.update points id point) := by
  intro other
  by_cases same : other = id
  · subst same
    rw [Function.update_self, stays, exclusive other]
  · rw [Function.update_of_ne same, exclusive other]

end Exclusive

end Foundation

/-! ### Since a state was entered -/

namespace Foundation.Stays

open List

variable {α β τ : Type*} {here : List α → Prop} {history older recent : List α} {a : α}

/-- After `older` the state is entered or held, and it is held over `recent`. -/
def Held (here : List α → Prop) (older recent : List α) : Prop :=
  ∀ part, part <+: recent → here (older ++ part)

theorem held_nil (reached : here history) : Held here history [] := by
  intro part isFront
  rwa [prefix_nil.mp isFront, append_nil]

theorem Held.concat (held : Held here older recent) (reached : here (older ++ recent ++ [a])) :
    Held here older (recent ++ [a]) := by
  intro part isFront
  rcases prefix_concat_iff.mp isFront with rfl | earlier
  · rwa [append_assoc] at reached
  · exact held part earlier

theorem Held.front (held : Held here older (recent ++ [a])) :
    Held here older recent ∧ here (older ++ recent) ∧ here (older ++ recent ++ [a]) := by
  have shorter : Held here older recent :=
    fun part isFront => held part (isFront.trans (prefix_append recent [a]))
  refine ⟨shorter, shorter recent prefix_rfl, ?_⟩
  rw [append_assoc]
  exact held _ prefix_rfl

/-- The last `k` outcomes came in the state, without leaving it, and are all `wanted`. -/
def Streak (here : List α → Prop) (outcome : α → Option β) (wanted : β) (k : ℕ) (history : List α) :
    Prop :=
  ∃ older recent, history = older ++ recent ∧ Held here older recent ∧
    recent.filterMap outcome = replicate k wanted

/-- The state was entered by an action of this time, and held since. -/
def Entered (here : List α → Prop) (time : α → τ) (entered : τ) (history : List α) : Prop :=
  ∃ older a recent, history = older ++ [a] ++ recent ∧ time a = entered ∧ ¬ here older ∧
    Held here (older ++ [a]) recent

section Counter

variable [DecidableEq β] {outcome : α → Option β} {wanted : β} {count : List α → ℕ}

/-- A counter that starts at zero in the state, and restarts at each other outcome. -/
structure Counts (here : List α → Prop) (outcome : α → Option β) (wanted : β) (count : List α → ℕ) :
    Prop where
  start : count [] = 0
  enters : ∀ history a, ¬ here history → here (history ++ [a]) → count (history ++ [a]) = 0
  stays : ∀ history a, here history → here (history ++ [a]) → count (history ++ [a]) =
    (outcome a).elim (count history) fun seen => if seen = wanted then count history + 1 else 0

variable (counts : Counts here outcome wanted count)

include counts

theorem Counts.streak (reached : here history) : Streak here outcome wanted (count history) history := by
  induction history using reverseRecOn with
  | nil => exact ⟨[], [], rfl, held_nil reached, by simp [counts.start]⟩
  | append_singleton history a ih =>
    by_cases before : here history
    · rw [counts.stays history a before reached]
      obtain ⟨older, recent, rfl, held, outcomes⟩ := ih before
      have longer := held.concat reached
      cases seen : outcome a with
      | none => exact ⟨older, recent ++ [a], append_assoc .., longer, by simp [seen, outcomes]⟩
      | some got =>
        by_cases same : got = wanted
        · refine ⟨older, recent ++ [a], append_assoc .., longer, ?_⟩
          simp [seen, same, outcomes, replicate_succ']
        · exact ⟨_, [], by simp, held_nil reached, by simp [same]⟩
    · rw [counts.enters history a before reached]
      exact ⟨_, [], by simp, held_nil reached, rfl⟩

theorem Counts.le {k : ℕ} (streak : Streak here outcome wanted k history) : k ≤ count history := by
  obtain ⟨older, recent, rfl, held, outcomes⟩ := streak
  induction recent using reverseRecOn generalizing k with
  | nil =>
    have none : k = 0 := by simpa using outcomes.symm
    simp [none]
  | append_singleton recent a ih =>
    obtain ⟨shorter, before, after⟩ := held.front
    rw [← append_assoc, counts.stays _ a before after]
    rw [filterMap_append] at outcomes
    cases seen : outcome a with
    | none => exact ih shorter (by simpa [seen] using outcomes)
    | some got =>
      cases k with
      | zero => exact Nat.zero_le _
      | succ k =>
        rw [replicate_succ'] at outcomes
        obtain ⟨rest, last⟩ := append_inj' outcomes (by simp [seen])
        have same : got = wanted := by simpa [seen] using last
        simpa [same] using ih shorter rest

/-- For a counter kept below a bound: one more reaches the bound. -/
theorem Counts.streak_iff {bound : ℕ} (reached : here history) (below : count history < bound) :
    Streak here outcome wanted (bound - 1) history ↔ bound ≤ count history + 1 := by
  constructor
  · intro streak
    have := counts.le streak
    omega
  · intro full
    have last : bound - 1 = count history := by omega
    rw [last]
    exact counts.streak reached

end Counter

/-- The state is held exactly when it was entered, at the time that was noted then. -/
theorem entered_iff {time : α → τ} (noted : List α → τ) (start : ¬ here [])
    (enters : ∀ history a, ¬ here history → here (history ++ [a]) → noted (history ++ [a]) = time a)
    (stays : ∀ history a, here history → here (history ++ [a]) →
      noted (history ++ [a]) = noted history) {entered : τ} :
    Entered here time entered history ↔ here history ∧ noted history = entered := by
  constructor
  · rintro ⟨older, a, recent, rfl, rfl, before, held⟩
    refine ⟨held recent prefix_rfl, ?_⟩
    induction recent using reverseRecOn with
    | nil =>
      rw [append_nil]
      exact enters older a before (by simpa using held [] prefix_rfl)
    | append_singleton recent last ih =>
      obtain ⟨shorter, reached, after⟩ := held.front
      rw [← append_assoc, stays _ last reached after]
      exact ih shorter
  · rintro ⟨reached, rfl⟩
    induction history using reverseRecOn with
    | nil => exact absurd reached start
    | append_singleton history a ih =>
      by_cases before : here history
      · obtain ⟨older, first, recent, rfl, timed, out, held⟩ := ih before
        refine ⟨older, first, recent ++ [a], by simp, ?_, out, held.concat reached⟩
        rw [stays _ a before reached, timed]
      · exact ⟨history, a, [], by simp, (enters history a before reached).symm, before,
          held_nil reached⟩

end Foundation.Stays

namespace Foundation.Iteration

variable {State Item : Type*} {next : State → Option Item × State}

def Yields (next : State → Option Item × State) : State → List Item → Prop
  | state, [] => (next state).1 = none
  | state, item :: items => (next state).1 = some item ∧ Yields next (next state).2 items

instance decidableYields [DecidableEq Item] :
    ∀ (state : State) (items : List Item), Decidable (Yields next state items)
  | state, [] => inferInstanceAs (Decidable ((next state).1 = none))
  | state, item :: items =>
    have := decidableYields (next state).2 items
    inferInstanceAs (Decidable ((next state).1 = some item ∧ Yields next (next state).2 items))

variable {state : State} {item : Item}

theorem Yields.unique {first second : List Item} (one : Yields next state first)
    (two : Yields next state second) : first = second := by
  induction first generalizing state second with
  | nil =>
    cases second with
    | nil => rfl
    | cons item items =>
      have given := two.1
      rw [show (next state).1 = none from one] at given
      cases given
  | cons item items ih =>
    cases second with
    | nil =>
      have given := one.1
      rw [show (next state).1 = none from two] at given
      cases given
    | cons other others =>
      have same : item = other := Option.some.inj (one.1.symm.trans two.1)
      rw [same, ih one.2 two.2]

theorem Yields.congr {other : State} {items : List Item} (same : next state = next other)
    (yields : Yields next other items) : Yields next state items := by
  cases items with
  | nil =>
    rw [Yields, same]
    exact yields
  | cons item items =>
    rw [Yields, same]
    exact yields

def EndsOnce (Final : Item → Prop) : List Item → Prop
  | [] => False
  | [item] => Final item
  | item :: other :: items => ¬ Final item ∧ EndsOnce Final (other :: items)

def Conforms (Final : Item → Prop) (next : State → Option Item × State) (state : State) : Prop :=
  ∃ items, Yields next state items ∧ EndsOnce Final items

variable {Final : Item → Prop}

def Continues (Final : Item → Prop) (next : State → Option Item × State) (answer : Option Item × State) :
    Prop :=
  ∃ item, answer.1 = some item ∧
    ((Final item ∧ (next answer.2).1 = none) ∨ (¬ Final item ∧ Conforms Final next answer.2))

theorem conforms_iff : Conforms Final next state ↔ Continues Final next (next state) := by
  constructor
  · rintro ⟨items, yields, once⟩
    cases items with
    | nil => exact absurd once id
    | cons item items =>
      refine ⟨item, yields.1, ?_⟩
      cases items with
      | nil => exact .inl ⟨once, yields.2⟩
      | cons other items => exact .inr ⟨once.1, other :: items, yields.2, once.2⟩
  · rintro ⟨item, given, ⟨final, ended⟩ | ⟨passing, items, yields, once⟩⟩
    · exact ⟨[item], ⟨given, ended⟩, final⟩
    · cases items with
      | nil => exact absurd once id
      | cons other items => exact ⟨item :: other :: items, ⟨given, yields⟩, passing, once⟩

theorem continues_final (final : Final item) :
    Continues Final next (some item, state) ↔ (next state).1 = none := by
  constructor
  · rintro ⟨_, ⟨⟩, ⟨-, ended⟩ | ⟨passing, -⟩⟩
    · exact ended
    · exact absurd final passing
  · exact fun ended => ⟨item, rfl, .inl ⟨final, ended⟩⟩

theorem continues_passing (passing : ¬ Final item) :
    Continues Final next (some item, state) ↔ Conforms Final next state := by
  constructor
  · rintro ⟨_, ⟨⟩, ⟨final, -⟩ | ⟨-, conforms⟩⟩
    · exact absurd final passing
    · exact conforms
  · exact fun conforms => ⟨item, rfl, .inr ⟨passing, conforms⟩⟩

end Foundation.Iteration

/-! ### Following a partial function -/

namespace Foundation

open Relation

variable {α : Type*} {next : α → Option α} {a b : α}

def orbit (next : α → Option α) : Nat → α → Option α
  | 0, a => some a
  | steps + 1, a => (next a).bind (orbit next steps)

def Leads (next : α → Option α) (a b : α) : Prop := next a = some b

theorem orbit_add (next : α → Option α) (m n : Nat) (a : α) :
    orbit next (m + n) a = (orbit next m a).bind (orbit next n) := by
  induction m generalizing a with
  | zero => rw [Nat.zero_add, orbit, Option.bind_some]
  | succ m ih =>
    rw [Nat.succ_add, orbit, orbit, Option.bind_assoc]
    exact congrArg _ (funext ih)

variable {m n : Nat} {domain : Finset α}

theorem orbit_eq_none_of_le (ended : orbit next m a = none) (fewer : m ≤ n) :
    orbit next n a = none := by
  obtain ⟨more, rfl⟩ := Nat.exists_eq_add_of_le fewer
  rw [orbit_add, ended, Option.bind_none]

theorem leads_of_orbit (arrives : orbit next n a = some b) : ReflTransGen (Leads next) a b := by
  induction n generalizing a with
  | zero =>
    cases arrives
    exact .refl
  | succ n ih =>
    obtain ⟨middle, step, rest⟩ := Option.bind_eq_some_iff.mp arrives
    exact .head step (ih rest)

theorem transGen_of_orbit_succ (arrives : orbit next (n + 1) a = some b) :
    TransGen (Leads next) a b := by
  obtain ⟨middle, step, rest⟩ := Option.bind_eq_some_iff.mp arrives
  exact .head' step (leads_of_orbit rest)

theorem exists_orbit_of_leads (leads : ReflTransGen (Leads next) a b) : ∃ n, orbit next n a = some b := by
  induction leads using ReflTransGen.head_induction_on with
  | refl => exact ⟨0, rfl⟩
  | head step _ ih =>
    obtain ⟨n, arrives⟩ := ih
    exact ⟨n + 1, by rw [orbit, step, Option.bind_some, arrives]⟩

theorem orbit_ne_none_of_cycle (cycle : TransGen (Leads next) a a) (n : Nat) : orbit next n a ≠ none := by
  obtain ⟨middle, step, back⟩ := TransGen.head'_iff.mp cycle
  obtain ⟨m, arrives⟩ := exists_orbit_of_leads back
  have round : orbit next (m + 1) a = some a := by rw [orbit, step, Option.bind_some, arrives]
  have rounds : ∀ k, orbit next (k * (m + 1)) a = some a := by
    intro k
    induction k with
    | zero => rw [Nat.zero_mul, orbit]
    | succ k ih =>
      rw [Nat.succ_mul, orbit_add, ih, Option.bind_some, round]
  intro ended
  have later := orbit_eq_none_of_le ended (Nat.le_mul_of_pos_right n (Nat.succ_pos m))
  rw [rounds n] at later
  cases later

theorem cycle_of_orbit_eq (earlier : m < n) (first : orbit next m a = some b)
    (second : orbit next n a = some b) : TransGen (Leads next) b b := by
  obtain ⟨between, rfl⟩ := Nat.exists_eq_add_of_lt earlier
  rw [Nat.add_assoc, orbit_add, first, Option.bind_some] at second
  exact transGen_of_orbit_succ second

theorem exists_cycle_of_orbit (bounded : ∀ a, next a ≠ none → a ∈ domain)
    (long : orbit next (domain.card + 1) a ≠ none) :
    ∃ b, ReflTransGen (Leads next) a b ∧ TransGen (Leads next) b b := by
  have met : ∀ n < domain.card + 1, ∃ b ∈ domain, orbit next n a = some b := by
    intro n fewer
    have further : orbit next (n + 1) a ≠ none := fun ended => long (orbit_eq_none_of_le ended fewer)
    rw [orbit_add] at further
    cases here : orbit next n a with
    | none => exact absurd (by rw [here, Option.bind_none]) further
    | some b =>
      refine ⟨b, bounded b fun ended => further ?_, rfl⟩
      rw [here, Option.bind_some, orbit, ended, Option.bind_none]
  have more : (domain.map Function.Embedding.some).card < (Finset.range (domain.card + 1)).card := by
    rw [Finset.card_map, Finset.card_range]
    exact Nat.lt_succ_self _
  obtain ⟨m, mFewer, n, nFewer, different, same⟩ :=
    Finset.exists_ne_map_eq_of_card_lt_of_maps_to more (f := fun n => orbit next n a) fun n fewer => by
      obtain ⟨b, member, here⟩ := met n (Finset.mem_range.mp fewer)
      exact Finset.mem_coe.mpr (Finset.mem_map.mpr ⟨b, member, here.symm⟩)
  obtain ⟨b, -, first⟩ := met m (Finset.mem_range.mp mFewer)
  have second : orbit next n a = some b := same ▸ first
  refine ⟨b, leads_of_orbit first, ?_⟩
  rcases Nat.lt_or_gt_of_ne different with earlier | later
  · exact cycle_of_orbit_eq earlier first second
  · exact cycle_of_orbit_eq later second first

theorem acyclic_of_orbit (ended : orbit next n a = none) (leads : ReflTransGen (Leads next) a b) :
    ¬ TransGen (Leads next) b b := by
  intro cycle
  obtain ⟨m, arrives⟩ := exists_orbit_of_leads leads
  have later := orbit_eq_none_of_le ended (Nat.le_add_left n m)
  rw [orbit_add, arrives, Option.bind_some] at later
  exact orbit_ne_none_of_cycle cycle n later

/-- The way from a value ends within the number of values with a next one, or it leads into a cycle. -/
theorem orbit_eq_none_iff (bounded : ∀ a, next a ≠ none → a ∈ domain) :
    orbit next (domain.card + 1) a = none ↔
      ∀ b, ReflTransGen (Leads next) a b → ¬ TransGen (Leads next) b b := by
  constructor
  · intro ended b leads
    exact acyclic_of_orbit ended leads
  · intro acyclic
    by_contra long
    obtain ⟨b, leads, cycle⟩ := exists_cycle_of_orbit bounded long
    exact acyclic b leads cycle

end Foundation
