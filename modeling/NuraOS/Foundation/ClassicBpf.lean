/-
Purpose: The classic BPF machine, whose jumps only go forward.
-/
import Mathlib.Data.List.Basic

namespace Foundation.ClassicBpf

/-- One instruction, with the fields of `struct sock_filter`. -/
structure Instruction where
  code : UInt16
  jt : UInt8
  jf : UInt8
  k : UInt32

/-- What an instruction does. The tests of a conditional jump compare the accumulator with `k`. -/
inductive Operation where
  | load
  | jump
  | jumpIf (test : UInt32 → UInt32 → Bool)
  | returnConstant
  | returnAccumulator

def operation (code : UInt16) : Option Operation :=
  if code = 0x20 then some .load
  else if code = 0x05 then some .jump
  else if code = 0x15 then some (.jumpIf fun a k => a = k)
  else if code = 0x25 then some (.jumpIf fun a k => a > k)
  else if code = 0x35 then some (.jumpIf fun a k => a ≥ k)
  else if code = 0x45 then some (.jumpIf fun a k => a &&& k ≠ 0)
  else if code = 0x06 then some .returnConstant
  else if code = 0x16 then some .returnAccumulator
  else none

structure State where
  pc : Nat
  accumulator : UInt32

/-- How a run ends. `outside` is a program counter past the program, `illegal` an instruction without a
meaning or a load from nowhere. -/
inductive Outcome where
  | returned (value : UInt32)
  | outside
  | illegal
  | unfinished
deriving DecidableEq

inductive Next where
  | goto (state : State)
  | stop (outcome : Outcome)

def Instruction.execute (instruction : Instruction) (data : UInt32 → Option UInt32) (state : State) : Next :=
  match operation instruction.code with
  | none => .stop .illegal
  | some .load =>
    match data instruction.k with
    | none => .stop .illegal
    | some word => .goto { pc := state.pc + 1, accumulator := word }
  | some .jump => .goto { state with pc := state.pc + 1 + instruction.k.toNat }
  | some (.jumpIf test) =>
    let offset := if test state.accumulator instruction.k then instruction.jt else instruction.jf
    .goto { state with pc := state.pc + 1 + offset.toNat }
  | some .returnConstant => .stop (.returned instruction.k)
  | some .returnAccumulator => .stop (.returned state.accumulator)

section

variable (program : List Instruction) (data : UInt32 → Option UInt32)

def step (state : State) : Next :=
  match program[state.pc]? with
  | none => .stop .outside
  | some instruction => instruction.execute data state

/-- At most `fuel` steps. -/
def run : Nat → State → Outcome
  | 0, _ => .unfinished
  | fuel + 1, state =>
    match step program data state with
    | .goto next => run fuel next
    | .stop outcome => outcome

/-- A run from a state, with a step for each instruction that is left and one to notice that none is. -/
def exec (state : State) : Outcome :=
  run program data (program.length - state.pc + 1) state

end

variable {program : List Instruction} {data : UInt32 → Option UInt32} {state next : State}

theorem Instruction.execute_forward {instruction : Instruction}
    (moves : instruction.execute data state = .goto next) : state.pc < next.pc := by
  rw [Instruction.execute] at moves
  split at moves
  · cases moves
  · split at moves
    · cases moves
    · cases moves
      exact Nat.lt_succ_self _
  · cases moves
    exact Nat.lt_add_right _ (Nat.lt_succ_self _)
  · cases moves
    exact Nat.lt_add_right _ (Nat.lt_succ_self _)
  · cases moves
  · cases moves

theorem step_forward (moves : step program data state = .goto next) :
    state.pc < next.pc ∧ state.pc < program.length := by
  rw [step] at moves
  split at moves
  · cases moves
  · rename_i found
    exact ⟨Instruction.execute_forward moves, (List.getElem?_eq_some_iff.mp found).1⟩

/-- Once there is a step for each instruction that is left, more steps change nothing. -/
theorem run_congr {fuel more : Nat} (enough : program.length - state.pc < fuel)
    (alsoEnough : program.length - state.pc < more) :
    run program data fuel state = run program data more state := by
  induction fuel generalizing more state with
  | zero => exact absurd enough (Nat.not_lt_zero _)
  | succ fuel ih =>
    cases more with
    | zero => exact absurd alsoEnough (Nat.not_lt_zero _)
    | succ more =>
      rw [run, run]
      cases moves : step program data state with
      | stop outcome => rfl
      | goto next =>
        obtain ⟨forward, inside⟩ := step_forward moves
        exact ih (by omega) (by omega)

theorem step_of_getElem? {instruction : Instruction} (found : program[state.pc]? = some instruction) :
    step program data state = instruction.execute data state := by
  rw [step, found]

theorem exec_goto (moves : step program data state = .goto next) :
    exec program data state = exec program data next := by
  obtain ⟨forward, inside⟩ := step_forward moves
  rw [exec, run, moves]
  exact run_congr (by omega) (Nat.lt_succ_self _)

end Foundation.ClassicBpf
