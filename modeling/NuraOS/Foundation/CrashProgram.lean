/-
Purpose: Programs whose calls go through, fail halfway or are cut off when the machine stops.
-/
import Mathlib.Data.List.Basic

namespace Foundation

open List

/-- The calls a program may make on a store of type `σ`. A failing or torn call is told by an amount
how much of its work reached the store. -/
structure Calls (σ : Type) where
  /-- The calls with their arguments. -/
  Call : Type
  /-- What the program gets back from a call. -/
  Reply : Call → Type
  /-- The call goes through. -/
  serve : (call : Call) → σ → Reply call × σ
  /-- The call returns an error. -/
  fail : (call : Call) → Nat → σ → Reply call × σ
  /-- The machine stops inside the call. -/
  tear : (call : Call) → Nat → σ → σ

/-- A program over a set of calls. `hang` is a program that never gets anywhere again. -/
inductive Prog {σ : Type} (calls : Calls σ) (α : Type) : Type where
  | ret (value : α)
  | call (request : calls.Call) (next : calls.Reply request → Prog calls α)
  | hang

inductive Fault where
  | pass
  | ioError (amount : Nat)
  | crash (amount : Nat)
deriving DecidableEq

/-- What the next call meets; once the list is used up every call goes through. -/
def nextFault : List Fault → Fault
  | [] => .pass
  | fault :: _ => fault

/-- How a program ends: it returns, or the machine stops (or never gets past a point). -/
inductive Outcome (α : Type) where
  | returned (value : α)
  | crashed
deriving DecidableEq

structure Result (α σ : Type) where
  outcome : Outcome α
  faults : List Fault
  store : σ

variable {σ : Type} {calls : Calls σ} {α β : Type}

namespace Prog

def bind : Prog calls α → (α → Prog calls β) → Prog calls β
  | .ret value, next => next value
  | .call request continuation, next => .call request fun reply => (continuation reply).bind next
  | .hang, _ => .hang

instance : Monad (Prog calls) where
  pure := .ret
  bind := bind

@[simp] theorem pure_eq (value : α) : (pure value : Prog calls α) = .ret value := rfl

@[simp] theorem bind_eq (program : Prog calls α) (next : α → Prog calls β) :
    (program >>= next) = program.bind next := rfl

@[simp] theorem ret_bind (value : α) (next : α → Prog calls β) :
    (Prog.ret value : Prog calls α).bind next = next value := rfl

@[simp] theorem call_bind (request : calls.Call) (continuation : calls.Reply request → Prog calls α)
    (next : α → Prog calls β) :
    (Prog.call request continuation).bind next =
      .call request fun reply => (continuation reply).bind next := rfl

@[simp] theorem hang_bind (next : α → Prog calls β) :
    (Prog.hang : Prog calls α).bind next = .hang := rfl

def perform (request : calls.Call) : Prog calls (calls.Reply request) :=
  .call request .ret

def andThen {ε : Type} (program : Prog calls (Except ε α)) (next : α → Prog calls (Except ε β)) :
    Prog calls (Except ε β) :=
  program.bind fun
    | .error e => .ret (.error e)
    | .ok value => next value

def run : Prog calls α → List Fault → σ → Result α σ
  | .ret value, faults, store => { outcome := .returned value, faults := faults, store := store }
  | .hang, faults, store => { outcome := .crashed, faults := faults, store := store }
  | .call request next, faults, store =>
    match nextFault faults with
    | .pass =>
      (next (calls.serve request store).1).run faults.tail (calls.serve request store).2
    | .ioError amount =>
      (next (calls.fail request amount store).1).run faults.tail
        (calls.fail request amount store).2
    | .crash amount =>
      { outcome := .crashed, faults := faults.tail, store := calls.tear request amount store }

def steps : Prog calls α → List Fault → σ → List (σ × σ)
  | .ret _, _, _ => []
  | .hang, _, _ => []
  | .call request next, faults, store =>
    match nextFault faults with
    | .pass =>
      (store, (calls.serve request store).2) ::
        (next (calls.serve request store).1).steps faults.tail (calls.serve request store).2
    | .ioError amount =>
      (store, (calls.fail request amount store).2) ::
        (next (calls.fail request amount store).1).steps faults.tail
          (calls.fail request amount store).2
    | .crash amount => [(store, calls.tear request amount store)]

@[simp] theorem run_ret (value : α) (faults : List Fault) (store : σ) :
    (Prog.ret value : Prog calls α).run faults store =
      { outcome := .returned value, faults := faults, store := store } := rfl

section Call

variable {request : calls.Call} {next : calls.Reply request → Prog calls α} {faults : List Fault}
  {store : σ}

theorem run_call_pass (fault : nextFault faults = .pass) :
    (Prog.call request next).run faults store =
      (next (calls.serve request store).1).run faults.tail (calls.serve request store).2 := by
  rw [run, fault]

variable {amount : Nat}

theorem run_call_ioError (fault : nextFault faults = .ioError amount) :
    (Prog.call request next).run faults store =
      (next (calls.fail request amount store).1).run faults.tail
        (calls.fail request amount store).2 := by
  rw [run, fault]

theorem run_call_crash (fault : nextFault faults = .crash amount) :
    (Prog.call request next).run faults store =
      { outcome := .crashed, faults := faults.tail, store := calls.tear request amount store } := by
  rw [run, fault]

end Call

theorem run_bind (program : Prog calls α) (next : α → Prog calls β) (faults : List Fault)
    (store : σ) :
    (program.bind next).run faults store =
      match (program.run faults store).outcome with
      | .returned value =>
        (next value).run (program.run faults store).faults (program.run faults store).store
      | .crashed =>
        { outcome := .crashed
          faults := (program.run faults store).faults
          store := (program.run faults store).store } := by
  induction program generalizing faults store with
  | ret value => rfl
  | hang => rfl
  | call request continuation ih =>
    rw [call_bind]
    cases fault : nextFault faults with
    | pass =>
      rw [run_call_pass fault, run_call_pass fault]
      exact ih _ _ _
    | ioError amount =>
      rw [run_call_ioError fault, run_call_ioError fault]
      exact ih _ _ _
    | crash amount => rw [run_call_crash fault, run_call_crash fault]

theorem run_bind_ret_store (program : Prog calls α) (wrap : α → β) (faults : List Fault)
    (store : σ) :
    ((program.bind fun value => .ret (wrap value)).run faults store).store =
      (program.run faults store).store := by
  rw [run_bind]
  split <;> rfl

/-! ### What every call may do

`Safe guard post program store` holds when, run from `store` against any faults, every call of
`program` changes the store as `guard` allows, and `post` holds of what it returns. -/

def Safe (guard : σ → σ → Prop) (post : α → σ → Prop) : Prog calls α → σ → Prop
  | .ret value, store => post value store
  | .hang, _ => True
  | .call request next, store =>
    (guard store (calls.serve request store).2 ∧
      Safe guard post (next (calls.serve request store).1) (calls.serve request store).2) ∧
    (∀ amount, guard store (calls.fail request amount store).2 ∧
      Safe guard post (next (calls.fail request amount store).1)
        (calls.fail request amount store).2) ∧
    ∀ amount, guard store (calls.tear request amount store)

namespace Safe

variable {guard : σ → σ → Prop} {post : α → σ → Prop} {program : Prog calls α} {store : σ}

theorem mono {wider : σ → σ → Prop} {weaker : α → σ → Prop} (safe : program.Safe guard post store)
    (allows : ∀ before after, guard before after → wider before after)
    (implies : ∀ value after, post value after → weaker value after) :
    program.Safe wider weaker store := by
  induction program generalizing store with
  | ret value => exact implies value store safe
  | hang => trivial
  | call request next ih =>
    obtain ⟨served, failed, torn⟩ := safe
    refine ⟨⟨allows _ _ served.1, ih _ served.2⟩, ?_, ?_⟩
    · intro amount
      exact ⟨allows _ _ (failed amount).1, ih _ (failed amount).2⟩
    · intro amount
      exact allows _ _ (torn amount)

theorem bind {next : α → Prog calls β} {final : β → σ → Prop}
    (first : program.Safe guard post store)
    (second : ∀ value after, post value after → (next value).Safe guard final after) :
    (program.bind next).Safe guard final store := by
  induction program generalizing store with
  | ret value => exact second value store first
  | hang => trivial
  | call request continuation ih =>
    obtain ⟨served, failed, torn⟩ := first
    refine ⟨⟨served.1, ih _ served.2⟩, ?_, torn⟩
    intro amount
    exact ⟨(failed amount).1, ih _ (failed amount).2⟩

theorem andThen {ε : Type} {first : Prog calls (Except ε α)} {next : α → Prog calls (Except ε β)}
    {middle : Except ε α → σ → Prop} {final : Except ε β → σ → Prop}
    (safe : first.Safe guard middle store)
    (failed : ∀ e after, middle (.error e) after → final (.error e) after)
    (second : ∀ value after, middle (.ok value) after → (next value).Safe guard final after) :
    (first.andThen next).Safe guard final store := by
  apply safe.bind
  intro result after holds
  cases result with
  | error e => exact failed e after holds
  | ok value => exact second value after holds

theorem of_returned (safe : program.Safe guard post store) {faults : List Fault} {value : α}
    (returned : (program.run faults store).outcome = .returned value) :
    post value (program.run faults store).store := by
  induction program generalizing faults store with
  | ret result =>
    simp only [run, Outcome.returned.injEq] at returned ⊢
    exact returned ▸ safe
  | hang => simp [run] at returned
  | call request next ih =>
    obtain ⟨served, failed, torn⟩ := safe
    cases fault : nextFault faults with
    | pass =>
      rw [run_call_pass fault] at returned ⊢
      exact ih _ served.2 returned
    | ioError amount =>
      rw [run_call_ioError fault] at returned ⊢
      exact ih _ (failed amount).2 returned
    | crash amount => simp [run_call_crash fault] at returned

/-- The invariant rule: what every allowed step keeps, while something is accumulated along the steps,
holds wherever a run ends. -/
theorem foldl_steps {γ : Type} (holds : γ → σ → Prop) (collect : γ → σ × σ → γ) (seen : γ)
    (safe : program.Safe guard post store)
    (keeps : ∀ seen before after, guard before after → holds seen before →
      holds (collect seen (before, after)) after)
    (initially : holds seen store) (faults : List Fault) :
    holds ((program.steps faults store).foldl collect seen) (program.run faults store).store := by
  induction program generalizing faults store seen with
  | ret value => exact initially
  | hang => exact initially
  | call request next ih =>
    obtain ⟨served, failed, torn⟩ := safe
    rw [steps]
    cases fault : nextFault faults with
    | pass =>
      rw [run_call_pass fault]
      exact ih _ _ served.2 (keeps _ _ _ served.1 initially) _
    | ioError amount =>
      rw [run_call_ioError fault]
      exact ih _ _ (failed amount).2 (keeps _ _ _ (failed amount).1 initially) _
    | crash amount =>
      rw [run_call_crash fault]
      exact keeps _ _ _ (torn amount) initially

theorem of_mem_steps (safe : program.Safe guard post store) (faults : List Fault)
    {step : σ × σ} (member : step ∈ program.steps faults store) : guard step.1 step.2 := by
  have all := foldl_steps (fun (seen : List (σ × σ)) _ => ∀ step ∈ seen, guard step.1 step.2)
    (fun seen step => step :: seen) [] safe
    (fun _ _ _ allowed earlier => forall_mem_cons.mpr ⟨allowed, earlier⟩) (by simp) faults
  simp only [foldl_flip_cons_eq_append, map_id', append_nil, mem_reverse] at all
  exact all step member

variable {holds : σ → Prop}

theorem keeps_run (safe : program.Safe guard post store)
    (keeps : ∀ before after, guard before after → holds before → holds after)
    (initially : holds store) (faults : List Fault) : holds (program.run faults store).store :=
  foldl_steps (fun _ => holds) (fun seen _ => seen) () safe
    (fun _ before after => keeps before after) initially faults

end Safe

/-! ### The calls a program makes -/

def requests : Prog calls α → List Fault → σ → List calls.Call
  | .ret _, _, _ => []
  | .hang, _, _ => []
  | .call request next, faults, store =>
    request ::
      match nextFault faults with
      | .pass => (next (calls.serve request store).1).requests faults.tail (calls.serve request store).2
      | .ioError amount =>
        (next (calls.fail request amount store).1).requests faults.tail
          (calls.fail request amount store).2
      | .crash _ => []

theorem requests_bind (program : Prog calls α) (next : α → Prog calls β) (faults : List Fault)
    (store : σ) :
    (program.bind next).requests faults store =
      program.requests faults store ++
        match (program.run faults store).outcome with
        | .returned value =>
          (next value).requests (program.run faults store).faults (program.run faults store).store
        | .crashed => [] := by
  induction program generalizing faults store with
  | ret value => rfl
  | hang => rfl
  | call request continuation ih =>
    simp only [call_bind, requests, cons_append]
    cases fault : nextFault faults with
    | pass =>
      rw [run_call_pass fault]
      exact congrArg _ (ih _ _ _)
    | ioError amount =>
      rw [run_call_ioError fault]
      exact congrArg _ (ih _ _ _)
    | crash amount => rw [run_call_crash fault, nil_append]

variable {faults : List Fault} {store : σ} {result : β}

theorem bind_returned {program : Prog calls α} {next : α → Prog calls β}
    (returned : ((program.bind next).run faults store).outcome = .returned result) :
    ∃ value, (program.run faults store).outcome = .returned value ∧
      (program.bind next).run faults store =
        (next value).run (program.run faults store).faults (program.run faults store).store ∧
      (program.bind next).requests faults store =
        program.requests faults store ++
          (next value).requests (program.run faults store).faults (program.run faults store).store := by
  rw [run_bind] at returned ⊢
  rw [requests_bind]
  cases outcome : (program.run faults store).outcome with
  | crashed =>
    rw [outcome] at returned
    cases returned
  | returned value => exact ⟨value, rfl, rfl, rfl⟩

theorem andThen_returned {ε : Type} {program : Prog calls (Except ε α)}
    {next : α → Prog calls (Except ε β)}
    (returned : ((program.andThen next).run faults store).outcome = .returned (.ok result)) :
    ∃ value, (program.run faults store).outcome = .returned (.ok value) ∧
      (program.andThen next).run faults store =
        (next value).run (program.run faults store).faults (program.run faults store).store ∧
      (program.andThen next).requests faults store =
        program.requests faults store ++
          (next value).requests (program.run faults store).faults (program.run faults store).store := by
  obtain ⟨value, first, rest, made⟩ := bind_returned returned
  cases value with
  | error e =>
    rw [andThen, rest] at returned
    cases returned
  | ok value => exact ⟨value, first, rest, made⟩

def Only (allowed : calls.Call → Prop) : Prog calls α → Prop
  | .ret _ => True
  | .hang => True
  | .call request next => allowed request ∧ ∀ reply, (next reply).Only allowed

namespace Only

variable {allowed : calls.Call → Prop} {program : Prog calls α}

theorem bind {next : α → Prog calls β} (first : program.Only allowed)
    (second : ∀ value, (next value).Only allowed) : (program.bind next).Only allowed := by
  induction program with
  | ret value => exact second value
  | hang => trivial
  | call request continuation ih =>
    exact ⟨first.1, fun reply => ih reply (first.2 reply)⟩

theorem andThen {ε : Type} {first : Prog calls (Except ε α)} {next : α → Prog calls (Except ε β)}
    (safe : first.Only allowed) (second : ∀ value, (next value).Only allowed) :
    (first.andThen next).Only allowed := by
  apply safe.bind
  intro result
  cases result with
  | error e => trivial
  | ok value => exact second value

theorem of_mem_requests (only : program.Only allowed) {faults : List Fault} {store : σ}
    {request : calls.Call} (made : request ∈ program.requests faults store) : allowed request := by
  induction program generalizing faults store with
  | ret value => exact absurd made not_mem_nil
  | hang => exact absurd made not_mem_nil
  | call first next ih =>
    rw [requests] at made
    rcases mem_cons.mp made with rfl | later
    · exact only.1
    · cases fault : nextFault faults with
      | pass =>
        rw [fault] at later
        exact ih _ (only.2 _) later
      | ioError amount =>
        rw [fault] at later
        exact ih _ (only.2 _) later
      | crash amount =>
        rw [fault] at later
        exact absurd later not_mem_nil

end Only

/-! ### Stopping at a given call -/

def callCount : Prog calls α → σ → Nat
  | .ret _, _ => 0
  | .hang, _ => 0
  | .call request next, store =>
    callCount (next (calls.serve request store).1) (calls.serve request store).2 + 1

end Prog

/-- `count` calls go through, and the machine stops inside the next one. -/
def crashAt (count amount : Nat) : List Fault :=
  List.replicate count .pass ++ [.crash amount]

@[simp] theorem crashAt_succ (count amount : Nat) :
    crashAt (count + 1) amount = .pass :: crashAt count amount := rfl

namespace Prog

variable {program : Prog calls α} {store : σ} {count amount : Nat}

theorem run_crashAt_inside (inside : count < program.callCount store) :
    (program.run (crashAt count amount) store).outcome = .crashed := by
  induction program generalizing count store with
  | ret value => exact absurd inside (Nat.not_lt_zero _)
  | hang => rfl
  | call request next ih =>
    cases count with
    | zero => rfl
    | succ count =>
      exact ih _ (Nat.lt_of_succ_lt_succ inside)

theorem run_crashAt_after (later : program.callCount store ≤ count) :
    program.run (crashAt count amount) store =
      { outcome := (program.run [] store).outcome
        faults := crashAt (count - program.callCount store) amount
        store := (program.run [] store).store } := by
  induction program generalizing count store with
  | ret value => rfl
  | hang => rfl
  | call request next ih =>
    cases count with
    | zero => exact absurd later (Nat.not_succ_le_zero _)
    | succ count =>
      rw [crashAt_succ, run_call_pass rfl, run_call_pass rfl, tail_cons,
        ih _ (Nat.le_of_succ_le_succ later), callCount, Nat.add_sub_add_right]
      rfl

/-- When every call goes through the program returns a value and leaves a store. -/
def Ends (program : Prog calls α) (store : σ) (value : α) (after : σ) : Prop :=
  program.run [] store = { outcome := .returned value, faults := [], store := after }

theorem Ends.bind {next : α → Prog calls β} {middle final : σ} {value : α} {result : β}
    (first : program.Ends store value middle) (second : (next value).Ends middle result final) :
    (program.bind next).Ends store result final := by
  rw [Ends, run_bind, first]
  exact second

/-- Without faults the program makes `made` calls, returns a value and leaves a store. -/
structure Completes (program : Prog calls α) (store : σ) (made : Nat) (value : α) (after : σ) :
    Prop where
  run : program.run [] store = { outcome := .returned value, faults := [], store := after }
  made : program.callCount store = made

namespace Completes

variable {middle final : σ} {value : α} {made total : Nat} {ε : Type}

variable {next : α → Prog calls β}

theorem bind {result : β} (first : program.Completes store made value middle)
    (within : made ≤ total) (second : (next value).Completes middle (total - made) result final) :
    (program.bind next).Completes store total result final := by
  induction program generalizing store made total with
  | ret returned =>
    obtain ⟨run, rfl⟩ := first
    obtain ⟨rfl, rfl⟩ : returned = value ∧ store = middle := by simpa using run
    exact second
  | hang =>
    obtain ⟨run, -⟩ := first
    simp [Prog.run] at run
  | call request continuation ih =>
    obtain ⟨run, rfl⟩ := first
    rw [callCount] at within second
    have rest := ih _ ⟨run, rfl⟩ (Nat.le_sub_one_of_lt within)
      (by rwa [Nat.sub_sub, Nat.add_comm 1])
    constructor
    · rw [call_bind, run_call_pass rfl]
      exact rest.run
    · rw [call_bind, callCount, rest.made]
      omega

theorem andThen {program : Prog calls (Except ε α)} {next : α → Prog calls (Except ε β)}
    {result : Except ε β} (first : program.Completes store made (.ok value) middle)
    (within : made ≤ total) (second : (next value).Completes middle (total - made) result final) :
    (program.andThen next).Completes store total result final :=
  first.bind within second

/-- A machine that stops after the program has run through goes on with what follows. -/
theorem run_bind_crashAt
    (first : program.Completes store made value middle) (later : made ≤ count) :
    (program.bind next).run (crashAt count amount) store =
      (next value).run (crashAt (count - made) amount) middle := by
  have counted := first.made
  have whole : program.run (crashAt count amount) store = _ :=
    run_crashAt_after (by rw [counted]; exact later)
  rw [run_bind, whole, first.run, counted]

end Completes

end Prog

end Foundation
