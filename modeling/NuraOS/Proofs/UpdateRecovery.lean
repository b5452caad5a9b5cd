/-
Purpose: The transaction record and the history over whole runs, and stopping the machine inside `Apply`.
-/
import NuraOS.History.Store

namespace NuraOS.Update

open Foundation

def Visible.recordState (visible : Visible) : Option TxState :=
  visible.record.map Transaction.state

def Visible.InProgress (visible : Visible) : Prop :=
  visible.recordState = some .staging ∨ visible.recordState = some .verifying

def Visible.Finished (visible : Visible) : Prop :=
  visible.recordState = some .committed ∨ visible.recordState = some .aborted

variable {visible before after : Visible} {tx : Transaction}

theorem Visible.txRecord_of_record
    (record : visible.record = some tx) : visible.txRecord = some (.whole tx) := by
  rw [Visible.record] at record
  split at record
  · simp_all
  · cases record

theorem Visible.record_of_txRecord
    (record : visible.txRecord = some (.whole tx)) : visible.record = some tx := by
  rw [Visible.record, record]

theorem Visible.recordState_of_txRecord (record : visible.txRecord = some (.whole tx)) :
    visible.recordState = some tx.state := by
  rw [recordState, record_of_txRecord record, Option.map_some]

def Transaction.Sound (tx : Transaction) : Prop :=
  tx.state = .staging ∨ tx.state = .verifying ∨ tx.state = .aborted ∨
    (tx.state = .committed ∧ tx.Reversible)

/-- The record can be read, it is in one of the four states, and a committed one names the slot that was
active before. -/
def WellRecorded (visible : Visible) : Prop :=
  ∀ file, visible.txRecord = some file → ∃ tx, file = .whole tx ∧ tx.Sound

theorem WellRecorded.saved (sound : tx.Sound) : WellRecorded (visible.saved tx) := by
  intro file recorded
  cases recorded
  exact ⟨tx, rfl, sound⟩

theorem WellRecorded.sound (recorded : WellRecorded visible)
    (record : visible.record = some tx) : tx.Sound := by
  obtain ⟨same, file, sound⟩ := recorded _ (Visible.txRecord_of_record record)
  cases file
  exact sound

theorem Applying.wellRecorded {args : ApplyArgs} (change : Applying args before after)
    (recorded : WellRecorded before) : WellRecorded after := by
  cases change with
  | preparing prepares =>
    cases prepares with
    | restaged staged => exact recorded
    | replaced staged => exact recorded
    | saved state =>
      apply WellRecorded.saved
      exact state.imp_right (Or.imp_right Or.inl)
  | flipped complete image verified => exact recorded
  | committed state reversible =>
    exact WellRecorded.saved (Or.inr (Or.inr (Or.inr ⟨state, reversible⟩)))

theorem Aborting.wellRecorded (change : Aborting before after)
    (recorded : WellRecorded before) : WellRecorded after := by
  cases change with
  | restaged staged => exact recorded
  | saved state => exact WellRecorded.saved (Or.inr (Or.inr (Or.inl state)))

theorem UpdateOp.Changes.wellRecorded {op : UpdateOp}
    (changes : op.Changes before after) (recorded : WellRecorded before) : WellRecorded after := by
  cases op with
  | apply args => exact Applying.wellRecorded changes recorded
  | applyDelta args =>
    obtain ⟨r, change⟩ := changes
    exact change.wellRecorded recorded
  | abort clock => exact Aborting.wellRecorded changes recorded
  | checkRecovery clock => exact Aborting.wellRecorded changes recorded
  | rollbackLastUpdate => cases changes <;> exact recorded

section Runs

variable {platform : Platform} {start : Disk}

theorem holds_after {holds : Visible → Prop}
    (keeps : ∀ (op : UpdateOp) before after, op.Changes before after → holds before → holds after)
    (initially : holds start.toVisible) (events : List UpdateEvent) :
    holds (start.after platform events).toVisible := by
  induction events generalizing start with
  | nil => exact initially
  | cons event events ih =>
    have kept : ∀ before after : Disk, Through event.op.Changes before after →
        holds before.toVisible → holds after.toVisible :=
      fun before after => keeps event.op before.toVisible after.toVisible
    exact ih ((event.op.safe platform start).keeps_run kept initially event.faults)

end Runs

section Fresh

variable (platform : Platform) (activeSlot : Option Slot) (rootfs : Slot → Option Bytes)
  (elsewhere : String → Option Bytes)

theorem wellRecorded_after (events : List UpdateEvent) :
    WellRecorded ((Disk.fresh activeSlot rootfs elsewhere).after platform events).toVisible := by
  apply holds_after
  · exact fun op before after => UpdateOp.Changes.wellRecorded
  · intro file recorded
    cases recorded

variable {visible : Visible}

theorem inProgress_of_not_finished (recorded : WellRecorded visible)
    (present : visible.txRecord.isSome = true) (unfinished : ¬ visible.Finished) :
    visible.InProgress := by
  obtain ⟨file, record⟩ := Option.isSome_iff_exists.mp present
  obtain ⟨tx, rfl, sound⟩ := recorded file record
  have state := Visible.recordState_of_txRecord record
  rw [Visible.Finished, state] at unfinished
  rw [Visible.InProgress, state]
  rcases sound with staging | verifying | aborted | ⟨committed, -⟩
  · exact Or.inl (congrArg some staging)
  · exact Or.inr (congrArg some verifying)
  · exact absurd (Or.inr (congrArg some aborted)) unfinished
  · exact absurd (Or.inl (congrArg some committed)) unfinished

theorem Visible.Finished.not_inProgress (finished : visible.Finished) : ¬ visible.InProgress := by
  rcases finished with state | state <;> simp [Visible.InProgress, state]

theorem Visible.Finished.present (finished : visible.Finished) :
    visible.txRecord.isSome = true := by
  rcases finished with state | state
  all_goals
    obtain ⟨tx, record, -⟩ := Option.map_eq_some_iff.mp state
    rw [Visible.txRecord_of_record record]
    rfl

/-- After any run from a fresh directory, `Apply` reports a transaction in progress only when there is
one exactly when the record is not that of a finished transaction: a finished one blocks every further
update. -/
theorem refused_only_in_progress_iff (events : List UpdateEvent) (args : ApplyArgs) :
    (∀ faults, ((apply platform args).run faults
        ((Disk.fresh activeSlot rootfs elsewhere).after platform events)).outcome =
          .returned (.error .txExists) →
        ((Disk.fresh activeSlot rootfs elsewhere).after platform events).InProgress) ↔
      ¬ ((Disk.fresh activeSlot rootfs elsewhere).after platform events).Finished := by
  have recorded := wellRecorded_after platform activeSlot rootfs elsewhere events
  constructor
  · intro onlyInProgress finished
    have refused := @apply_refuses platform _ args finished.present
    apply finished.not_inProgress
    apply onlyInProgress []
    rw [refused.run]
  · intro unfinished faults refused
    have present := apply_safe.of_returned refused rfl
    exact inProgress_of_not_finished recorded present unfinished

end Fresh

def examplePlatform : Platform :=
  { ed25519Verify := fun _ _ _ => true, formatPercent := fun _ _ => "0.0" }

def exampleClock : Clock :=
  { begun := { unixNano := 1, rfc3339 := "2026-01-01T00:00:00Z" }
    snapshot := { unixNano := 2, rfc3339 := "2026-01-01T00:00:00Z" }
    finished := { unixNano := 3, rfc3339 := "2026-01-01T00:00:00Z" } }

def exampleArgs : ApplyArgs :=
  { r := { data := [1], failure := none }
    source := "rootfs.ext4"
    expectedSHA := ""
    sigBytes := none
    runningServices := []
    pubKey := []
    clock := exampleClock }

/-- A machine on slot `a` without any image. -/
def exampleDisk : Disk :=
  Disk.fresh none (fun _ => none) (fun _ => none)

def updatedDisk : Disk :=
  exampleDisk.after examplePlatform [{ op := .apply exampleArgs, faults := [] }]

theorem exampleArgs_accepted : exampleArgs.accepted examplePlatform = true := rfl

theorem updatedDisk_record :
    updatedDisk.txRecord = some (.whole (exampleArgs.committedTx exampleDisk.active)) :=
  rfl

theorem updatedDisk_finished : updatedDisk.Finished :=
  .inl rfl

theorem second_update_refused :
    ((apply examplePlatform exampleArgs).run [] updatedDisk).outcome =
        .returned (.error .txExists) ∧
      updatedDisk.Finished ∧ ¬ updatedDisk.InProgress := by
  have refused := @apply_refuses examplePlatform updatedDisk exampleArgs updatedDisk_finished.present
  refine ⟨?_, updatedDisk_finished, updatedDisk_finished.not_inProgress⟩
  rw [refused.run]

/-! ### What becomes of a finished record -/

def faultFree (ops : List UpdateOp) : List UpdateEvent :=
  ops.map fun op => { op := op, faults := [] }

theorem faultFree_append (first second : List UpdateOp) :
    faultFree (first ++ second) = faultFree first ++ faultFree second :=
  List.map_append

def Disk.RollsBackTo (disk : Disk) (slot : Slot) : Prop :=
  (rollbackLastUpdate.run [] disk).outcome = .returned (.ok slot) ∧
    (rollbackLastUpdate.run [] disk).store.active = slot

/-- There is still a record. If it is the one of this transaction it has the same state; and if that is
committed, a rollback returns to the slot that was not the target. -/
def Transaction.FinalAt (tx : Transaction) (disk : Disk) : Prop :=
  ∃ later, disk.record = some later ∧
    (later.id = tx.id → later.state = tx.state ∧
      (tx.state = .committed → disk.RollsBackTo tx.targetSlot.other))

/-- Whenever the record is that of a finished transaction, it stays so until the end of the run. -/
def FinalAlong (platform : Platform) (start : Disk) (ops : List UpdateOp) : Prop :=
  ∀ first second rest, ops = first ++ second ++ rest →
    ∀ tx, (start.after platform (faultFree first)).record = some tx →
      tx.state = .committed ∨ tx.state = .aborted →
      tx.FinalAt (start.after platform (faultFree (first ++ second)))

def KeepsCommitted (disk : Disk) (event : UpdateEvent) : Prop :=
  ∀ clock, event.op = .abort clock → disk.recordState ≠ some .committed

def Transaction.core (tx : Transaction) : String × TxState × Slot × Option HealthSnapshot :=
  (tx.id, tx.state, tx.targetSlot, tx.health)

section Step

variable {platform : Platform} {disk : Disk} {tx : Transaction}

/-- Without faults an operation leaves a finished record alone, but for the time and the reason of an
abort that is repeated. -/
theorem step_keeps_core (op : UpdateOp) (record : disk.record = some tx)
    (finished : tx.state = .committed ∨ tx.state = .aborted)
    (keeps : KeepsCommitted disk { op := op, faults := [] }) :
    ∃ later, (disk.step platform { op := op, faults := [] }).record = some later ∧
      later.core = tx.core := by
  have file := Visible.txRecord_of_record record
  have present : disk.txRecord.isSome = true := by
    rw [file]
    rfl
  rw [Disk.step]
  cases op with
  | apply args =>
    have refused := @apply_refuses platform disk args present
    rw [UpdateOp.program, Prog.run_bind_ret_store, refused.run]
    exact ⟨tx, record, rfl⟩
  | applyDelta args =>
    rw [UpdateOp.program, Prog.run_bind_ret_store, applyDelta_refuses args present]
    exact ⟨tx, record, rfl⟩
  | abort clock =>
    have aborted : tx.state = .aborted := by
      apply finished.resolve_left
      intro committed
      apply keeps clock rfl
      rw [Visible.recordState_of_txRecord file, committed]
    obtain ⟨after, completes, given⟩ := abort_completes clock file
    rw [UpdateOp.program, Prog.run_bind_ret_store, completes.run]
    refine ⟨_, Visible.record_of_txRecord given, ?_⟩
    rw [Transaction.core, Transaction.core, aborted]
    rfl
  | checkRecovery clock =>
    have kept := checkRecovery_keeps clock file finished
    rw [UpdateOp.program, Prog.run_bind_ret_store, kept.run]
    exact ⟨tx, record, rfl⟩
  | rollbackLastUpdate =>
    rw [UpdateOp.program, Prog.run_bind_ret_store]
    have kept : ∀ before after : Disk, Through RollingBack before after →
        before.record = some tx → after.record = some tx := by
      intro before after change recorded
      cases after with
      | mk visible =>
        cases change <;> exact recorded
    exact ⟨tx, rollbackLastUpdate_safe.keeps_run kept record [], rfl⟩

/-- A run in which no committed transaction is aborted keeps the record of a finished one. -/
theorem run_keeps_core (ops : List UpdateOp) (record : disk.record = some tx)
    (finished : tx.state = .committed ∨ tx.state = .aborted)
    (keeps : disk.Throughout platform KeepsCommitted (faultFree ops)) :
    ∃ later, (disk.after platform (faultFree ops)).record = some later ∧ later.core = tx.core := by
  induction ops generalizing disk tx with
  | nil => exact ⟨tx, record, rfl⟩
  | cons op ops ih =>
    obtain ⟨now, further⟩ := keeps
    obtain ⟨next, nextRecord, sameCore⟩ := step_keeps_core op record finished now
    have sameState : next.state = tx.state := congrArg (fun core => core.2.1) sameCore
    rw [← sameState] at finished
    obtain ⟨later, laterRecord, laterCore⟩ := ih nextRecord finished further
    exact ⟨later, laterRecord, laterCore.trans sameCore⟩

/-- A committed record whose transaction named the slot before it can be rolled back. -/
theorem rollsBackTo_of_committed (record : disk.record = some tx) (state : tx.state = .committed)
    (reversible : tx.Reversible) : disk.RollsBackTo tx.targetSlot.other := by
  obtain ⟨health, snapshot, previous⟩ := reversible
  obtain ⟨after, completes, shape⟩ := rollbackLastUpdate_completes
    (Visible.txRecord_of_record record) state snapshot
  rw [Disk.RollsBackTo, completes.run, ← previous]
  constructor
  · rfl
  · rw [shape]
    exact Visible.active_flipped _ _

theorem finalAt_of_core {later : Transaction} (recorded : WellRecorded disk.toVisible)
    (record : disk.record = some later) (sameCore : later.core = tx.core) : tx.FinalAt disk := by
  simp only [Transaction.core, Prod.mk.injEq] at sameCore
  obtain ⟨sameId, sameState, sameTarget, sameHealth⟩ := sameCore
  refine ⟨later, record, fun _ => ⟨sameState, ?_⟩⟩
  intro committed
  rw [← sameState] at committed
  have reversible : later.Reversible := by
    have sound := recorded.sound record
    simp only [Transaction.Sound, committed, reduceCtorEq, true_and, false_or] at sound
    exact sound
  rw [← sameTarget]
  exact rollsBackTo_of_committed record committed reversible

theorem abort_not_final (clock : Clock) (record : disk.record = some tx)
    (committed : tx.state = .committed) :
    ¬ tx.FinalAt (disk.step platform { op := .abort clock, faults := [] }) := by
  rintro ⟨later, laterRecord, final⟩
  obtain ⟨after, completes, given⟩ := abort_completes clock (Visible.txRecord_of_record record)
  rw [Disk.step, UpdateOp.program, Prog.run_bind_ret_store, completes.run,
    Visible.record_of_txRecord given, Option.some.injEq] at laterRecord
  subst laterRecord
  have state := (final rfl).1
  rw [committed] at state
  cases state

variable {ops : List UpdateOp}

theorem FinalAlong.tail {op : UpdateOp} (final : FinalAlong platform disk (op :: ops)) :
    FinalAlong platform (disk.step platform { op := op, faults := [] }) ops := by
  intro first second rest split
  apply final (op :: first) second rest
  rw [split]
  rfl

theorem FinalAlong.keepsCommitted (final : FinalAlong platform disk ops) :
    disk.Throughout platform KeepsCommitted (faultFree ops) := by
  induction ops generalizing disk with
  | nil => trivial
  | cons op ops ih =>
    constructor
    · intro clock isAbort committed
      obtain rfl : op = .abort clock := isAbort
      obtain ⟨tx, record, state⟩ := Option.map_eq_some_iff.mp committed
      exact abort_not_final clock record state
        (final [] [.abort clock] ops rfl tx record (Or.inl state))
    · exact ih final.tail

end Step

/-- In a run without faults from a fresh directory, a finished record keeps its state, and a committed
one can be rolled back, exactly when no committed transaction is aborted. -/
theorem finished_record_final_iff (platform : Platform) (activeSlot : Option Slot)
    (rootfs : Slot → Option Bytes) (elsewhere : String → Option Bytes) (ops : List UpdateOp) :
    FinalAlong platform (Disk.fresh activeSlot rootfs elsewhere) ops ↔
      (Disk.fresh activeSlot rootfs elsewhere).Throughout platform KeepsCommitted
        (faultFree ops) := by
  constructor
  · exact FinalAlong.keepsCommitted
  · intro keeps first second rest split tx record finished
    rw [split, faultFree_append, faultFree_append, Disk.throughout_append,
      Disk.throughout_append] at keeps
    obtain ⟨later, laterRecord, sameCore⟩ := run_keeps_core second record finished keeps.1.2
    rw [← Disk.after_append, ← faultFree_append] at laterRecord
    exact finalAt_of_core (wellRecorded_after _ _ _ _ _) laterRecord sameCore

/-- The first update is committed; an abort turns its record into an aborted one, which no rollback
accepts. -/
theorem abort_undoes_commit :
    updatedDisk.record.map (fun tx => (tx.id, tx.state)) = some ("1", .committed) ∧
      (updatedDisk.step examplePlatform { op := .abort exampleClock, faults := [] }).record.map
        (fun tx => (tx.id, tx.state)) = some ("1", .aborted) ∧
      (rollbackLastUpdate.run []
        (updatedDisk.step examplePlatform { op := .abort exampleClock, faults := [] })).outcome =
          .returned (.error (.nothingToRollBack "aborted")) := by
  obtain ⟨after, completes, given⟩ := abort_completes exampleClock updatedDisk_record
  rw [Disk.step, UpdateOp.program, Prog.run_bind_ret_store, completes.run]
  refine ⟨?_, ?_, ?_⟩
  · rw [Visible.record_of_txRecord updatedDisk_record]
    rfl
  · rw [Visible.record_of_txRecord given]
    rfl
  · rw [(rollbackLastUpdate_refuses given (by decide)).run]
    rfl

/-- When the machine stops inside call number `count`, having done all of it if `amount` is one, the call
number `position` has taken effect. -/
def effective (position count amount : Nat) : Bool :=
  position < count || (position == count && amount == 1)

def ApplyArgs.flipCall (args : ApplyArgs) : Nat :=
  args.callsToPrepare + 2

def ApplyArgs.commitCall (args : ApplyArgs) : Nat :=
  args.callsToPrepare + 4

/-- No transaction is recorded and the active slot can be read: `Apply` gets past its first checks. -/
def Visible.Updatable (visible : Visible) : Prop :=
  visible.txRecord = none ∧ visible.activeSlotFile ≠ some .torn

/-- The machine stops inside `Apply`, and recovers at the next boot. -/
def Disk.rebooted (platform : Platform) (args : ApplyArgs) (count amount : Nat) (clock : Clock)
    (disk : Disk) : Disk :=
  ((checkRecovery clock).run []
    ((apply platform args).run (crashAt count amount) disk).store).store

/-- The record and the active slot agree on what became of an update that began on slot `prior`. -/
structure Agrees (prior : Slot) (disk : Disk) : Prop where
  aborted : disk.recordState = some .aborted → disk.active = prior
  committed : disk.active = prior.other →
    disk.recordState = some .committed ∧ disk.RollsBackTo prior

theorem effective_add {made position count amount : Nat} (later : made ≤ count) :
    effective (made + position) count amount = effective position (count - made) amount := by
  rw [Bool.eq_iff_iff]
  simp only [effective, Bool.or_eq_true, Bool.and_eq_true, decide_eq_true_eq, beq_iff_eq]
  omega

theorem effective_of_le {earlier position count amount : Nat} (order : earlier ≤ position)
    (effect : effective position count amount = true) : effective earlier count amount = true := by
  simp only [effective, Bool.or_eq_true, Bool.and_eq_true, decide_eq_true_eq, beq_iff_eq] at effect ⊢
  omega

theorem Preparing.slot {args : ApplyArgs} {before after : Visible}
    (prepares : Preparing args before after) : after.activeSlotFile = before.activeSlotFile := by
  cases prepares <;> rfl

theorem Aborting.slot {before after : Visible} (change : Aborting before after) :
    after.activeSlotFile = before.activeSlotFile := by
  cases change <;> rfl

theorem slot_of_safe {α : Type} {allowed : Visible → Visible → Prop} {post : α → Disk → Prop}
    {program : UpdateProg α} {disk : Disk} (safe : program.Safe (Through allowed) post disk)
    (keeps : ∀ {before after}, allowed before after → after.activeSlotFile = before.activeSlotFile)
    (faults : List Fault) :
    (program.run faults disk).store.activeSlotFile = disk.activeSlotFile := by
  have kept : ∀ before after : Disk, Through allowed before after →
      before.activeSlotFile = disk.activeSlotFile → after.activeSlotFile = disk.activeSlotFile :=
    fun before after change same => (keeps change).trans same
  exact safe.keeps_run kept rfl faults

section Crash

variable {platform : Platform} {args : ApplyArgs} {clock : Clock} {disk : Disk}
  {count amount : Nat}

theorem agrees_of_slot (prior : Slot)
    (slot : ((apply platform args).run (crashAt count amount) disk).store.active = prior) :
    Agrees prior (disk.rebooted platform args count amount clock) := by
  have booted : (disk.rebooted platform args count amount clock).active = prior := by
    rw [← slot]
    apply active_eq
    exact slot_of_safe (checkRecovery_safe clock) Aborting.slot []
  constructor
  · intro _
    exact booted
  · intro flipped
    rw [booted] at flipped
    exact absurd flipped.symm prior.other_ne

theorem slot_of_rejected (rejected : args.accepted platform = false) (faults : List Fault) :
    ((apply platform args).run faults disk).store.active = disk.active := by
  have safe : (apply platform args).Safe (Through (Preparing args)) (fun _ _ => True) disk := by
    apply prepare_safe.andThen
    · intro cause after _
      trivial
    · rintro tx ready ⟨-, -, -, accepted⟩
      rw [rejected] at accepted
      cases accepted
  exact active_eq (slot_of_safe safe Preparing.slot faults)

/-- An update that is refused, or that cannot read the active slot, leaves that slot alone. -/
theorem slot_of_not_updatable (blocked : ¬ disk.Updatable) :
    ((apply platform args).run (crashAt count amount) disk).store.active = disk.active := by
  obtain ⟨⟨txRecord, activeSlotFile, historyFile, rootfs, staged⟩, txTmp, slotTmp, historyTmp, auditLog,
    elsewhere⟩ := disk
  cases txRecord with
  | some file =>
    -- one call, the one that finds the record
    match count, amount with
    | 0, 0 | 0, 1 | 0, _ + 2 => rfl
    | count + 1, amount => rfl
  | none =>
    have torn : activeSlotFile = some .torn := by
      by_contra readable
      exact blocked ⟨rfl, readable⟩
    subst torn
    -- one more call, the one that reads the slot
    match count, amount with
    | 0, 0 | 0, 1 | 0, _ + 2 => rfl
    | 1, 0 | 1, 1 | 1, _ + 2 => rfl
    | count + 2, amount => rfl

/-! ### An accepted update -/

theorem flipSlot_crashAt (tx : Transaction) :
    ((flipSlot args tx).run (crashAt count amount) disk).store.activeSlotFile =
        (if effective 2 count amount then some (.whole tx.targetSlot) else disk.activeSlotFile) ∧
      ((flipSlot args tx).run (crashAt count amount) disk).store.txRecord =
        (if effective 4 count amount then some (.whole (tx.finish args.clock))
          else disk.txRecord) := by
  -- seven calls, each stopped before, after or halfway; then the program has run through
  match count, amount with
  | 0, 0 | 0, 1 | 0, _ + 2 => exact ⟨rfl, rfl⟩
  | 1, 0 | 1, 1 | 1, _ + 2 => exact ⟨rfl, rfl⟩
  | 2, 0 | 2, 1 | 2, _ + 2 => exact ⟨rfl, rfl⟩
  | 3, 0 | 3, 1 | 3, _ + 2 => exact ⟨rfl, rfl⟩
  | 4, 0 | 4, 1 | 4, _ + 2 => exact ⟨rfl, rfl⟩
  | 5, 0 | 5, 1 | 5, _ + 2 => exact ⟨rfl, rfl⟩
  | 6, 0 | 6, 1 | 6, _ + 2 => exact ⟨rfl, rfl⟩
  | count + 7, amount => exact ⟨rfl, rfl⟩

theorem late_of_flipped (flipped : effective args.flipCall count amount = true) :
    args.callsToPrepare ≤ count := by
  simp only [effective, Bool.or_eq_true, Bool.and_eq_true, decide_eq_true_eq, beq_iff_eq] at flipped
  rw [ApplyArgs.flipCall] at flipped
  omega

variable (accepted : args.accepted platform = true) (free : disk.txRecord = none)
  (readable : disk.activeSlotFile ≠ some .torn)
include accepted free readable

/-- A machine that stops while the update prepares the other slot is still on the old one. -/
theorem slot_of_early (early : count < args.callsToPrepare) :
    ((apply platform args).run (crashAt count amount) disk).store.active = disk.active := by
  obtain ⟨ready, staged, prepares, -⟩ := prepare_completes accepted free readable
  rw [← prepares.made] at early
  rw [apply, Prog.andThen, Prog.run_bind, Prog.run_crashAt_inside early]
  exact active_eq (slot_of_safe (@prepare_safe platform args disk) Preparing.slot _)

/-- What a machine is left with that stops inside the last part of an accepted update. -/
theorem apply_crashAt (late : args.callsToPrepare ≤ count) :
    ((apply platform args).run (crashAt count amount) disk).store.activeSlotFile =
        (if effective args.flipCall count amount then some (.whole disk.active.other)
          else disk.activeSlotFile) ∧
      ((apply platform args).run (crashAt count amount) disk).store.txRecord =
        some (.whole (if effective args.commitCall count amount then args.committedTx disk.active
          else args.healthyTx disk.active)) := by
  obtain ⟨ready, staged, prepares, shape⟩ := prepare_completes accepted free readable
  have effects := @flipSlot_crashAt args ready (count - args.callsToPrepare) amount
    (args.healthyTx disk.active)
  have slot : ready.activeSlotFile = disk.activeSlotFile := by
    rw [shape]
    rfl
  have record : ready.txRecord = some (.whole (args.healthyTx disk.active)) := by
    rw [shape]
    rfl
  rw [apply, Prog.andThen, prepares.run_bind_crashAt late, ApplyArgs.flipCall, ApplyArgs.commitCall,
    effective_add late, effective_add late]
  constructor
  · rw [effects.1, slot]
    rfl
  · rw [effects.2, record]
    split <;> rfl

/-- A machine that stops after the flip and before the record of the commit loses the commit: recovery
takes the update for one that never got to the flip. -/
theorem not_agrees_of_between
    (flipped : effective args.flipCall count amount = true)
    (unrecorded : effective args.commitCall count amount = false) :
    ¬ Agrees disk.active (disk.rebooted platform args count amount clock) := by
  intro agrees
  have late := late_of_flipped flipped
  obtain ⟨slot, record⟩ := @apply_crashAt platform args disk count amount accepted free readable late
  rw [flipped, if_pos rfl] at slot
  rw [unrecorded, if_neg Bool.false_ne_true] at record
  obtain ⟨after, result, reason, gives, given, sameSlot⟩ :=
    checkRecovery_gives_up clock record (Or.inr rfl)
  rw [Disk.rebooted, gives.run] at agrees
  have active := agrees.aborted (Visible.recordState_of_txRecord given)
  rw [Visible.active, sameSlot, slot] at active
  exact Slot.other_ne _ active

theorem agrees_of_recorded (recorded : effective args.commitCall count amount = true) :
    Agrees disk.active (disk.rebooted platform args count amount clock) := by
  have flipped : effective args.flipCall count amount = true :=
    effective_of_le (Nat.add_le_add_left (by decide) _) recorded
  have late := late_of_flipped flipped
  obtain ⟨slot, record⟩ := @apply_crashAt platform args disk count amount accepted free readable late
  rw [recorded, if_pos rfl] at record
  have kept := checkRecovery_keeps clock record (Or.inl rfl)
  rw [Disk.rebooted, kept.run]
  have committed := Visible.recordState_of_txRecord record
  constructor
  · intro aborted
    rw [committed] at aborted
    cases aborted
  · intro _
    refine ⟨committed, ?_⟩
    rw [← disk.active.other_other]
    exact rollsBackTo_of_committed (Visible.record_of_txRecord record) rfl
      (healthyTx_reversible disk.active)

end Crash

/-- Stop the machine inside any call of `Apply` and let it recover at the next boot: the record and the
active slot agree unless the update had begun, its image was accepted, and the machine stopped after the
slot was flipped and before the commit was recorded. -/
theorem recovery_agrees_iff (platform : Platform) (args : ApplyArgs) (clock : Clock) (disk : Disk)
    (count amount : Nat) :
    Agrees disk.active (disk.rebooted platform args count amount clock) ↔
      ¬ (disk.Updatable ∧ args.accepted platform = true ∧
        effective args.flipCall count amount = true ∧
        effective args.commitCall count amount = false) := by
  constructor
  · rintro agrees ⟨updatable, accepted, flipped, unrecorded⟩
    exact not_agrees_of_between accepted updatable.1 updatable.2 flipped unrecorded agrees
  · intro outside
    by_cases updatable : disk.Updatable
    · obtain ⟨free, readable⟩ := updatable
      cases accepted : args.accepted platform with
      | false => exact agrees_of_slot _ (slot_of_rejected accepted _)
      | true =>
        cases recorded : effective args.commitCall count amount with
        | true => exact agrees_of_recorded accepted free readable recorded
        | false =>
          have unflipped : effective args.flipCall count amount = false := by
            rw [← Bool.not_eq_true]
            intro flipped
            exact outside ⟨⟨free, readable⟩, accepted, flipped, recorded⟩
          apply agrees_of_slot
          by_cases early : count < args.callsToPrepare
          · exact slot_of_early accepted free readable early
          · apply active_eq
            rw [(apply_crashAt accepted free readable (Nat.le_of_not_lt early)).1, unflipped]
            rfl
    · exact agrees_of_slot _ (slot_of_not_updatable updatable)

/-- The update of a machine on slot `a` stops right after the flip. After the next boot the machine runs
slot `b`, the record says aborted, and there is no way back. -/
theorem recovery_loses_commit :
    (exampleDisk.rebooted examplePlatform exampleArgs 19 0 exampleClock).active = .b ∧
      (exampleDisk.rebooted examplePlatform exampleArgs 19 0 exampleClock).recordState =
        some .aborted ∧
      (rollbackLastUpdate.run []
        (exampleDisk.rebooted examplePlatform exampleArgs 19 0 exampleClock)).outcome =
          .returned (.error (.nothingToRollBack "aborted")) := by
  obtain ⟨slot, record⟩ := @apply_crashAt examplePlatform exampleArgs exampleDisk 19 0
    exampleArgs_accepted rfl (Disk.fresh_readable _ _ _) (by decide)
  obtain ⟨after, result, reason, gives, given, sameSlot⟩ :=
    checkRecovery_gives_up exampleClock record (Or.inr rfl)
  rw [Disk.rebooted, gives.run]
  refine ⟨?_, ?_, ?_⟩
  · rw [Visible.active, sameSlot, slot]
    rfl
  · exact Visible.recordState_of_txRecord given
  · rw [(rollbackLastUpdate_refuses given TxState.noConfusion).run]
    rfl

end NuraOS.Update

namespace NuraOS.History

open Foundation Update List Store

def withHistory (visible : Visible) (d : HistoryDb) : Visible :=
  { visible with historyFile := some (.whole d) }

section Store

variable {disk : Disk}

theorem save_completes (d : HistoryDb) :
    ∃ after, (save d).Completes disk 3 (.ok ()) after ∧
      after.toVisible = withHistory disk.toVisible d :=
  ⟨_, ⟨rfl, rfl⟩, rfl⟩

variable {id : String} (readable : disk.historyFile ≠ some .torn)
include readable

theorem load_completes :
    load.Completes disk 1 (.ok (historyOf disk.toVisible)) disk := by
  have read : (call .readHistory).Completes disk 1 (found disk.historyFile) disk := ⟨rfl, rfl⟩
  apply read.bind (Nat.le_refl _)
  rw [historyOf]
  cases file : disk.historyFile with
  | none => exact ⟨rfl, rfl⟩
  | some contents =>
    cases contents with
    | torn => exact absurd file readable
    | whole d => exact ⟨rfl, rfl⟩

theorem add_completes (clock : AddClock) (e : HistoryEntry) {maxEntries : Int} {max : Nat}
    (limit : (if maxEntries ≤ 0 then defaultMaxEntries else maxEntries) = max) :
    ∃ after, (add clock e maxEntries).Completes disk 4 (.ok ()) after ∧
      after.toVisible = withHistory disk.toVisible
        { historyOf disk.toVisible with
          entries := pruneEntries max
            ((historyOf disk.toVisible).entries ++ [complete clock e]) } := by
  obtain ⟨after, saves, shape⟩ := @save_completes disk
    { historyOf disk.toVisible with
      entries := pruneEntries max
        ((historyOf disk.toVisible).entries ++ [complete clock e]) }
  refine ⟨after, ?_, shape⟩
  apply (load_completes readable).andThen (by decide)
  rw [limit]
  exact saves

theorem markKnownGood_completes {entries : List HistoryEntry}
    (marked : markFirst id (historyOf disk.toVisible).entries = some entries) :
    ∃ after, (markKnownGood id).Completes disk 4 (.ok ()) after ∧
      after.toVisible = withHistory disk.toVisible
        { historyOf disk.toVisible with entries := entries } := by
  obtain ⟨after, saves, shape⟩ := @save_completes disk
    { historyOf disk.toVisible with entries := entries }
  refine ⟨after, ?_, shape⟩
  apply (load_completes readable).andThen (by decide)
  rw [marked]
  exact saves

theorem markKnownGood_missing
    (missing : markFirst id (historyOf disk.toVisible).entries = none) :
    (markKnownGood id).Completes disk 1 (.error (.notFound id)) disk := by
  apply (load_completes readable).andThen (Nat.le_refl _)
  rw [missing]
  exact ⟨rfl, rfl⟩

theorem get_completes :
    (get id).Completes disk 1 (lookup id (historyOf disk.toVisible).entries) disk :=
  (load_completes readable).bind (Nat.le_refl _) ⟨rfl, rfl⟩

theorem rollbackTo_missing (clock : AddClock)
    (missing : lookup id (historyOf disk.toVisible).entries = none) :
    (rollbackTo id clock).Completes disk 1 (.error (.notFound id)) disk := by
  apply (get_completes readable).bind (Nat.le_refl _)
  rw [missing]
  exact ⟨rfl, rfl⟩

theorem rollbackTo_completes {e : HistoryEntry} (clock : AddClock)
    (present : lookup id (historyOf disk.toVisible).entries = some e) :
    ∃ after, (rollbackTo id clock).Completes disk 8 (.ok ()) after ∧
      after.toVisible = withHistory (disk.flipped e.slot)
        { historyOf disk.toVisible with
          entries := (versionsOf disk.toVisible).recorded clock
            (rollbackEntry id clock e) } := by
  have flips := writeActiveSlot_completes disk e.slot
  obtain ⟨after, adds, shape⟩ := @add_completes
    { disk with activeSlotFile := some (.whole e.slot), activeSlotTmp := none } readable clock
    (rollbackEntry id clock e) defaultMaxEntries 10 rfl
  refine ⟨after, ?_, shape⟩
  apply (get_completes readable).bind (by decide)
  rw [present]
  exact flips.bind (by decide) adds

end Store

/-! ### The code follows the model -/

structure Ready (disk : Disk) : Prop where
  free : disk.txRecord = none
  slot : disk.activeSlotFile ≠ some .torn
  history : disk.historyFile ≠ some .torn

section Simulation

variable {platform : Platform} {disk : Disk}

theorem cmdUpdateApply_completes (checked : CheckedUpdate platform) (ready : Ready disk) :
    ∃ after, (cmdUpdateApply platform checked.args checked.clock).Completes disk
        (checked.args.callsToPrepare + 11) (.ok (checked.args.committedTx disk.active)) after ∧
      versionsOf after.toVisible = (versionsOf disk.toVisible).step (.update checked) ∧
      Ready (cleared after) := by
  obtain ⟨applied, staged, applies, shape⟩ :=
    apply_completes checked.accepted ready.free ready.slot
  have readable : applied.historyFile ≠ some .torn := by
    rw [shape]
    exact ready.history
  obtain ⟨after, adds, recordedShape⟩ := @add_completes applied readable checked.clock
    (updateEntry (checked.args.committedTx disk.active)) 0 10 rfl
  have sameHistory : historyOf applied.toVisible = historyOf disk.toVisible := by
    rw [shape]
    rfl
  refine ⟨after, ?_, ?_, ?_⟩
  · apply applies.andThen (by omega)
    apply adds.bind (by omega)
    constructor
    · rfl
    · change 0 = _
      omega
  · rw [recordedShape, versionsOf, sameHistory, shape]
    rfl
  · constructor
    · rfl
    · change after.activeSlotFile ≠ _
      rw [recordedShape, shape]
      intro torn
      cases torn
    · change after.historyFile ≠ _
      rw [recordedShape]
      intro torn
      cases torn

theorem ready_of_withHistory {visible : Visible} {d : HistoryDb}
    (shape : disk.toVisible = withHistory visible d) (free : visible.txRecord = none)
    (slot : visible.activeSlotFile ≠ some .torn) : Ready disk := by
  constructor <;> rw [shape]
  · exact free
  · exact slot
  · intro torn
    cases torn

theorem versionStep_simulates (ready : Ready disk) (event : VersionEvent platform) :
    versionsOf (versionStep disk event).toVisible = (versionsOf disk.toVisible).step event ∧
      Ready (versionStep disk event) := by
  cases event with
  | update checked =>
    obtain ⟨after, completes, simulates, readyAfter⟩ := cmdUpdateApply_completes checked ready
    rw [versionStep, completes.run]
    exact ⟨simulates, readyAfter⟩
  | markKnownGood id =>
    rw [versionStep, Versions.step]
    cases marked : markFirst id (historyOf disk.toVisible).entries with
    | none =>
      rw [(markKnownGood_missing ready.history marked).run, versionsOf, marked]
      exact ⟨rfl, ready⟩
    | some entries =>
      obtain ⟨after, completes, shape⟩ := markKnownGood_completes ready.history marked
      rw [completes.run]
      refine ⟨?_, ready_of_withHistory shape ready.free ready.slot⟩
      rw [shape, versionsOf, versionsOf, marked]
      rfl
  | rollbackTo id clock =>
    rw [versionStep, Versions.step]
    cases present : lookup id (historyOf disk.toVisible).entries with
    | none =>
      rw [(rollbackTo_missing ready.history clock present).run, versionsOf, present]
      exact ⟨rfl, ready⟩
    | some e =>
      obtain ⟨after, completes, shape⟩ := rollbackTo_completes ready.history clock present
      rw [completes.run]
      constructor
      · rw [shape, versionsOf, versionsOf, present]
        rfl
      · apply ready_of_withHistory shape ready.free
        intro torn
        cases torn

theorem ready_fresh (activeSlot : Option Slot) (rootfs : Slot → Option Bytes)
    (elsewhere : String → Option Bytes) : Ready (Disk.fresh activeSlot rootfs elsewhere) := by
  constructor
  · rfl
  · exact Disk.fresh_readable activeSlot rootfs elsewhere
  · intro torn
    cases torn

theorem versionRun_simulates (ready : Ready disk) (events : List (VersionEvent platform)) :
    versionsOf (versionRun disk events).toVisible =
        events.foldl Versions.step (versionsOf disk.toVisible) ∧
      Ready (versionRun disk events) := by
  induction events generalizing disk with
  | nil => exact ⟨rfl, ready⟩
  | cons event events ih =>
    obtain ⟨simulates, readyAfter⟩ := versionStep_simulates ready event
    rw [versionRun, foldl_cons, foldl_cons, ← simulates]
    exact ih readyAfter

/-- From a fresh device on, the files show what the abstract versions do. -/
theorem fresh_refines (activeSlot : Option Slot) (rootfs : Slot → Option Bytes)
    (elsewhere : String → Option Bytes) (events : List (VersionEvent platform)) :
    versionsOf (versionRun (Disk.fresh activeSlot rootfs elsewhere) events).toVisible =
      events.foldl Versions.step ⟨activeSlot.getD .a, rootfs, []⟩ := by
  rw [(versionRun_simulates (ready_fresh activeSlot rootfs elsewhere) events).1]
  cases activeSlot <;> rfl

end Simulation

/-! ### Where the images come from -/

variable {entries : List HistoryEntry} {e : HistoryEntry} {id : String}

theorem removeUnmarked_sublist {excess removed : Nat} :
    removeUnmarked excess removed entries <+ entries := by
  induction entries generalizing removed with
  | nil => exact .slnil
  | cons first entries ih =>
    rw [removeUnmarked]
    split
    · exact ih.cons _
    · exact ih.cons_cons _

theorem mem_of_mem_pruneEntries {max : Nat}
    (member : e ∈ pruneEntries max entries) : e ∈ entries := by
  have fromSorted : ∀ {excess}, e ∈ removeUnmarked excess 0 (sortByTimestamp entries) →
      e ∈ entries :=
    fun kept => mem_mergeSort.mp (removeUnmarked_sublist.subset kept)
  simp only [pruneEntries] at member
  split at member
  · exact member
  · split at member
    · exact fromSorted (mem_of_mem_drop member)
    · exact fromSorted member

theorem mem_recorded {versions : Versions} {clock : AddClock} {new : HistoryEntry}
    (member : e ∈ versions.recorded clock new) :
    e ∈ versions.entries ∨ e = complete clock new :=
  (mem_append.mp (mem_of_mem_pruneEntries member)).imp_right mem_singleton.mp

theorem slot_of_mem_markFirst {marked : List HistoryEntry}
    (marks : markFirst id entries = some marked) (member : e ∈ marked) :
    ∃ old ∈ entries, old.slot = e.slot := by
  induction entries generalizing marked with
  | nil => cases marks
  | cons first entries ih =>
    rw [markFirst] at marks
    split at marks
    · cases marks
      rcases mem_cons.mp member with rfl | later
      · exact ⟨first, mem_cons_self, rfl⟩
      · exact ⟨e, mem_cons_of_mem _ later, rfl⟩
    · obtain ⟨rest, marksRest, rfl⟩ := Option.map_eq_some_iff.mp marks
      rcases mem_cons.mp member with rfl | later
      · exact ⟨e, mem_cons_self, rfl⟩
      · obtain ⟨old, oldMember, sameSlot⟩ := ih marksRest later
        exact ⟨old, mem_cons_of_mem _ oldMember, sameSlot⟩

section Origins

variable {platform : Platform}

/-- Each slot with a known origin holds the image of that update, and every entry is about such a
slot. -/
structure Traced (origin : Slot → Option (CheckedUpdate platform)) (versions : Versions) : Prop where
  images : ∀ slot checked, origin slot = some checked →
    versions.images slot = some checked.args.r.data
  entries : ∀ e ∈ versions.entries, (origin e.slot).isSome = true

variable {origin : Slot → Option (CheckedUpdate platform)}

theorem Traced.step {versions : Versions}
    (traced : Traced origin versions) (event : VersionEvent platform) :
    Traced (fun slot => (event.updateInto slot versions.active).or (origin slot))
      (versions.step event) := by
  cases event with
  | update checked =>
    constructor
    · intro slot last known
      simp only [VersionEvent.updateInto] at known
      by_cases target : versions.active.other = slot
      · subst target
        simp only [if_true, Option.some_or, Option.some.injEq] at known
        subst known
        exact Function.update_self _ _ _
      · simp only [target, if_false, Option.none_or] at known
        rw [← traced.images slot last known]
        exact Function.update_of_ne (Ne.symm target) _ _
    · intro e member
      rcases mem_recorded member with earlier | rfl
      · simp [Option.isSome_or, traced.entries e earlier]
      · simp [VersionEvent.updateInto, complete, updateEntry, ApplyArgs.newTx]
  | markKnownGood id =>
    constructor
    · exact traced.images
    · intro e member
      simp only [Versions.step] at member
      cases marks : markFirst id versions.entries with
      | none =>
        rw [marks, Option.getD_none] at member
        exact traced.entries e member
      | some marked =>
        rw [marks, Option.getD_some] at member
        obtain ⟨old, oldMember, sameSlot⟩ := slot_of_mem_markFirst marks member
        rw [← sameSlot]
        exact traced.entries old oldMember
  | rollbackTo id clock =>
    rw [Versions.step]
    cases present : lookup id versions.entries with
    | none => exact traced
    | some e =>
      constructor
      · exact traced.images
      · intro other member
        rcases mem_recorded member with earlier | rfl
        · exact traced.entries other earlier
        · exact traced.entries e (mem_of_find?_eq_some present)

theorem traced_run {disk : Disk} (ready : Ready disk)
    (traced : Traced origin (versionsOf disk.toVisible)) (events : List (VersionEvent platform)) :
    Traced (fun slot => (lastUpdateInto slot disk events).or (origin slot))
      (versionsOf (versionRun disk events).toVisible) := by
  induction events generalizing disk origin with
  | nil => exact traced
  | cons event events ih =>
    obtain ⟨simulates, readyAfter⟩ := versionStep_simulates ready event
    have next := traced.step event
    rw [← simulates] at next
    simp only [lastUpdateInto, Option.or_assoc]
    exact ih readyAfter next

/-- From a fresh directory: an entry's slot holds the image of the last update into it. -/
theorem lastUpdateInto_of_entry (activeSlot : Option Slot) (rootfs : Slot → Option Bytes)
    (elsewhere : String → Option Bytes) (events : List (VersionEvent platform)) {e : HistoryEntry}
    (member : e ∈ (historyOf
      (versionRun (Disk.fresh activeSlot rootfs elsewhere) events).toVisible).entries) :
    ∃ checked, lastUpdateInto e.slot (Disk.fresh activeSlot rootfs elsewhere) events = some checked ∧
      (versionRun (Disk.fresh activeSlot rootfs elsewhere) events).rootfs e.slot =
        some checked.args.r.data := by
  have untouched : Traced (fun _ => (none : Option (CheckedUpdate platform)))
      (versionsOf (Disk.fresh activeSlot rootfs elsewhere).toVisible) := by
    constructor
    · intro slot checked impossible
      cases impossible
    · intro e impossible
      cases impossible
  have traced := traced_run (ready_fresh activeSlot rootfs elsewhere) untouched events
  simp only [Option.or_none] at traced
  obtain ⟨checked, last⟩ := Option.isSome_iff_exists.mp (traced.entries e member)
  exact ⟨checked, last, traced.images e.slot checked last⟩

end Origins

/-! ### What a rollback restores -/

theorem equalFold_congr {first second : String} (same : equalFold first second = true)
    (third : String) : equalFold first third = equalFold second third := by
  simp only [equalFold, beq_iff_eq] at same
  rw [equalFold, equalFold, same]

theorem CheckedUpdate.hash {platform : Platform} (checked : CheckedUpdate platform) :
    equalFold (Sha256.sha256Hex checked.args.r.data) checked.args.expectedSHA = true := by
  have accepted := checked.accepted
  simp only [ApplyArgs.accepted, ApplyArgs.shaMatches, Bool.and_eq_true, Bool.or_eq_true,
    beq_iff_eq, checked.expects, false_or] at accepted
  exact accepted.1.2

/-- If a rollback to the entry returns without an error, the active slot holds an image with the hash of
the entry. -/
def Restores (disk : Disk) (id : String) (clock : AddClock) : Prop :=
  ((rollbackTo id clock).run [] disk).outcome = .returned (.ok ()) →
    ∀ e, lookup id (historyOf disk.toVisible).entries = some e →
      ∃ image, ((rollbackTo id clock).run [] disk).store.rootfs
          ((rollbackTo id clock).run [] disk).store.active = some image ∧
        equalFold (Sha256.sha256Hex image) e.imageSHA = true

theorem restores_iff {disk : Disk} (ready : Ready disk) (clock : AddClock)
    (present : lookup id (historyOf disk.toVisible).entries = some e) {image : Bytes}
    (holds : disk.rootfs e.slot = some image) :
    Restores disk id clock ↔ equalFold (Sha256.sha256Hex image) e.imageSHA = true := by
  obtain ⟨after, completes, shape⟩ := rollbackTo_completes ready.history clock present
  have slot : after.active = e.slot := by
    rw [shape]
    rfl
  have images : after.rootfs = disk.rootfs := by
    rw [shape]
    rfl
  rw [Restores, completes.run]
  simp only [slot, images, holds, present, Option.some.injEq, forall_const, forall_eq']
  constructor
  · rintro ⟨found, rfl, hash⟩
    exact hash
  · intro hash
    exact ⟨image, rfl, hash⟩

/-- After any run of checked updates, known-good marks and rollbacks from a fresh directory, a rollback to
an entry restores the version it names exactly when the last update into the slot of the entry expected
the hash of the entry. -/
theorem rollback_restores_iff (platform : Platform) (activeSlot : Option Slot)
    (rootfs : Slot → Option Bytes) (elsewhere : String → Option Bytes)
    (events : List (VersionEvent platform)) (id : String) (clock : AddClock) :
    Restores (versionRun (Disk.fresh activeSlot rootfs elsewhere) events) id clock ↔
      ∀ e, Store.lookup id (historyOf
          (versionRun (Disk.fresh activeSlot rootfs elsewhere) events).toVisible).entries = some e →
        ∃ checked,
          lastUpdateInto e.slot (Disk.fresh activeSlot rootfs elsewhere) events = some checked ∧
          equalFold checked.args.expectedSHA e.imageSHA = true := by
  obtain ⟨-, ready⟩ := versionRun_simulates (ready_fresh activeSlot rootfs elsewhere) events
  cases present : lookup id (historyOf
      (versionRun (Disk.fresh activeSlot rootfs elsewhere) events).toVisible).entries with
  | none =>
    have missing := rollbackTo_missing ready.history clock present
    rw [Restores, missing.run]
    simp
  | some e =>
    obtain ⟨checked, last, holds⟩ := lastUpdateInto_of_entry activeSlot rootfs elsewhere events
      (mem_of_find?_eq_some present)
    rw [restores_iff ready clock present holds, equalFold_congr checked.hash]
    simp only [Option.some.injEq, forall_eq', last, exists_eq_left']

/-! Three updates of a machine on slot `a` go into the slots `b`, `a` and `b`. The first version is gone,
but its entry is not, and a rollback to it activates the third. -/

theorem sha256Hex_ne_empty (message : Bytes) : Sha256.sha256Hex message ≠ "" := by
  intro empty
  have length := Sha256.length_utf8_sha256Hex message
  rw [empty] at length
  exact absurd length (by decide)

theorem equalFold_self (text : String) : equalFold text text = true :=
  beq_self_eq_true _

def anyPlatform : Platform :=
  { ed25519Verify := fun _ _ _ => false, formatPercent := fun _ _ => "" }

def instantAt (nano : Int) : Instant :=
  { unixNano := nano, rfc3339 := "2026-01-01T00:00:00Z" }

def clockAt (nano : Int) : AddClock :=
  { named := instantAt nano, stamped := instantAt nano }

def imageUpdate (nano : Int) (image : Bytes) : CheckedUpdate anyPlatform where
  args :=
    { r := { data := image, failure := none }
      source := "rootfs.ext4"
      expectedSHA := Sha256.sha256Hex image
      sigBytes := none
      runningServices := []
      pubKey := []
      clock := { begun := instantAt nano, snapshot := instantAt nano, finished := instantAt nano } }
  clock := clockAt nano
  expects := sha256Hex_ne_empty image
  accepted := by
    simp [ApplyArgs.accepted, ApplyArgs.shaMatches, equalFold_self, ApplyArgs.signatureValid,
      ApplyArgs.checksSignature]

def threeUpdates : List (VersionEvent anyPlatform) :=
  [.update (imageUpdate 1 [1]), .update (imageUpdate 2 [2]), .update (imageUpdate 3 [3])]

def updatedThrice : Disk :=
  versionRun (Disk.fresh none (fun _ => none) (fun _ => none)) threeUpdates

def entryOf (nano : Int) (image : Bytes) (active : Slot) : HistoryEntry :=
  complete (clockAt nano) (updateEntry ((imageUpdate nano image).args.newTx active))

theorem updatedThrice_simulates :
    versionsOf updatedThrice.toVisible =
        { active := .b
          images := Function.update (Function.update (Function.update (fun _ => none) .b (some [1])) .a
            (some [2])) .b (some [3])
          entries := [entryOf 1 [1] .a, entryOf 2 [2] .b, entryOf 3 [3] .a] } ∧
      Ready updatedThrice :=
  versionRun_simulates (ready_fresh none (fun _ => none) (fun _ => none)) threeUpdates

theorem hashes_differ : equalFold (Sha256.sha256Hex [3]) (Sha256.sha256Hex [1]) = false := by
  decide +kernel

theorem rollback_activates_other_version :
    ((Store.rollbackTo "1" (clockAt 4)).run [] updatedThrice).outcome = .returned (.ok ()) ∧
      ¬ Restores updatedThrice "1" (clockAt 4) := by
  obtain ⟨simulates, ready⟩ := updatedThrice_simulates
  have entries := congrArg Versions.entries simulates
  have images := congrArg Versions.images simulates
  rw [entries_versionsOf] at entries
  rw [images_versionsOf] at images
  have present : lookup "1" (historyOf updatedThrice.toVisible).entries =
      some (entryOf 1 [1] .a) := by
    rw [entries]
    exact find?_cons_of_pos rfl
  have holds : updatedThrice.rootfs (entryOf 1 [1] .a).slot = some [3] := by
    rw [images]
    rfl
  constructor
  · obtain ⟨after, completes, -⟩ := rollbackTo_completes ready.history (clockAt 4) present
    rw [completes.run]
  · rw [restores_iff ready (clockAt 4) present holds]
    change ¬ equalFold (Sha256.sha256Hex [3]) (Sha256.sha256Hex [1]) = true
    rw [hashes_differ]
    exact Bool.false_ne_true

/-! ### A full history -/

/-- As many entries are removed as are in excess. A known-good one is removed only where all that are kept
are known good, and of either kind the removed ones are no later than the kept ones. -/
structure Retained (max : Nat) (all kept removed : List HistoryEntry) : Prop where
  parts : removed ++ kept ~ all
  excess : removed.length = all.length - max
  knownGood : ∀ r ∈ removed, r.knownGood = true → ∀ k ∈ kept, k.knownGood = true
  oldest : ∀ r ∈ removed, ∀ k ∈ kept, r.knownGood = k.knownGood → r.timestamp ≤ k.timestamp
  untouched : all.length ≤ max → kept = all

theorem pairwise_sortByTimestamp (entries : List HistoryEntry) :
    (sortByTimestamp entries).Pairwise (·.timestamp ≤ ·.timestamp) := by
  have later : ∀ first second : HistoryEntry,
      (!decide (second.timestamp < first.timestamp)) = true ↔ first.timestamp ≤ second.timestamp := by
    intro first second
    rw [Bool.not_eq_true', decide_eq_false_iff_not, not_lt]
  refine (pairwise_mergeSort ?_ ?_ entries).imp (later _ _).mp
  · intro first second third
    rw [later, later, later]
    exact le_trans
  · intro first second
    rw [Bool.or_eq_true, later, later]
    exact le_total _ _

variable {entries : List HistoryEntry} {excess removed : Nat}

/-- The first pass removes the oldest entries that are not known good, until enough are removed or none is
left. -/
theorem removeUnmarked_spec (sorted : entries.Pairwise (·.timestamp ≤ ·.timestamp)) :
    ∃ dropped, dropped ++ removeUnmarked excess removed entries ~ entries ∧
      (∀ r ∈ dropped, r.knownGood = false ∧ ∀ k ∈ removeUnmarked excess removed entries,
        k.knownGood = false → r.timestamp ≤ k.timestamp) ∧
      dropped.length ≤ excess - removed ∧
      (dropped.length < excess - removed →
        ∀ k ∈ removeUnmarked excess removed entries, k.knownGood = true) := by
  induction entries generalizing removed with
  | nil => exact ⟨[], .nil, by simp, by simp, by simp [removeUnmarked]⟩
  | cons e entries ih =>
    obtain ⟨first, sorted⟩ := pairwise_cons.mp sorted
    rw [removeUnmarked]
    split
    next unmarked =>
      obtain ⟨dropped, parts, oldest, few, rest⟩ := @ih (removed + 1) sorted
      refine ⟨e :: dropped, parts.cons e, forall_mem_cons.mpr ⟨⟨unmarked.1, ?_⟩, oldest⟩, ?_, ?_⟩
      · exact fun k kept _ => first k (removeUnmarked_sublist.subset kept)
      · rw [length_cons]
        omega
      · rw [length_cons]
        exact fun fewer => rest (by omega)
    next kept =>
      obtain ⟨dropped, parts, oldest, few, rest⟩ := @ih removed sorted
      -- an entry that is not known good is kept only when enough have been removed before
      have marked : removed < excess → e.knownGood = true := fun fewer => by
        simpa [fewer] using kept
      refine ⟨dropped, perm_middle.trans (parts.cons e), fun r member => ⟨(oldest r member).1, ?_⟩,
        few, fun fewer => forall_mem_cons.mpr ⟨marked (by omega), rest fewer⟩⟩
      have some := length_pos_of_mem member
      exact forall_mem_cons.mpr ⟨by simp [marked (by omega)], (oldest r member).2⟩

theorem retained_pruneEntries (max : Nat) (all : List HistoryEntry) :
    ∃ removed, Retained max all (pruneEntries max all) removed := by
  by_cases fits : all.length ≤ max
  · refine ⟨[], ?_⟩
    rw [pruneEntries, if_pos fits]
    exact ⟨.refl _, by simp [fits], by simp, by simp, fun _ => rfl⟩
  have sorted := pairwise_sortByTimestamp all
  obtain ⟨dropped, parts, oldest, few, rest⟩ := @removeUnmarked_spec _ (all.length - max) 0 sorted
  have keptSorted := sorted.sublist (@removeUnmarked_sublist _ (all.length - max) 0)
  simp only [pruneEntries, fits, if_false]
  generalize removeUnmarked _ 0 _ = filtered at *
  replace parts := parts.trans (mergeSort_perm _ _)
  have size := parts.length_eq
  rw [length_append] at size
  split
  · -- the second pass removes the oldest of the known-good ones
    have marked := rest (by omega)
    rw [← take_append_drop (filtered.length - max) filtered] at parts keptSorted
    refine ⟨dropped ++ filtered.take (filtered.length - max), by rwa [append_assoc], ?_, ?_, ?_, ?_⟩
    · rw [length_append, length_take]
      omega
    · exact fun _ _ _ k kept => marked k (mem_of_mem_drop kept)
    · intro r removed k kept same
      rcases mem_append.mp removed with unmarked | early
      · simp [(oldest r unmarked).1, marked k (mem_of_mem_drop kept)] at same
      · exact (pairwise_append.mp keptSorted).2.2 r early k kept
    · exact fun few => absurd few fits
  · refine ⟨dropped, parts, by omega, ?_, ?_, fun few => absurd few fits⟩
    · intro r removed good
      simp [(oldest r removed).1] at good
    · intro r removed k kept same
      exact (oldest r removed).2 k kept (by rw [← same, (oldest r removed).1])

/-- `Add` stores the old entries and the new one, without the ones in excess. -/
theorem add_retains (disk : Disk) (clock : AddClock) (e : HistoryEntry) (maxEntries : Int)
    (positive : 1 ≤ maxEntries) (readable : disk.historyFile ≠ some .torn) :
    ((Store.add clock e maxEntries).run [] disk).outcome = .returned (.ok ()) ∧
      ∃ removed, Retained maxEntries.toNat
        ((historyOf disk.toVisible).entries ++ [Store.complete clock e])
        (historyOf ((Store.add clock e maxEntries).run [] disk).store.toVisible).entries removed := by
  obtain ⟨after, completes, shape⟩ := @add_completes disk readable clock e maxEntries
    maxEntries.toNat (by rw [if_neg (by omega)]; omega)
  rw [completes.run, shape]
  exact ⟨rfl, retained_pruneEntries _ _⟩

def entryAt (timestamp : String) (knownGood : Bool) : HistoryEntry :=
  { id := timestamp, timestamp, slot := .a, imageSHA := "", imageVersion := "", source := "",
    packages := [], knownGood, txID := "" }

def recordedEntries : List HistoryEntry :=
  [entryAt "2026-01-01T00:00:00Z" true, entryAt "2026-01-02T00:00:00Z" false,
    entryAt "2026-01-03T00:00:00Z" false]

def recordedDisk : Disk :=
  { Disk.fresh none (fun _ => none) fun _ => none with
    historyFile := some (.whole { schema := 1, entries := recordedEntries }) }

/-- Of four entries two are in excess; the oldest one is known good and stays. -/
theorem add_retains_knownGood :
    ∃ removed kept, historyOf ((Store.add (clockAt 1) (entryAt "2026-01-04T00:00:00Z" false) 2).run
        [] recordedDisk).store.toVisible = kept ∧
      Retained 2 (recordedEntries ++ [entryAt "2026-01-04T00:00:00Z" false]) kept.entries removed ∧
      removed.length = 2 ∧ entryAt "2026-01-01T00:00:00Z" true ∈ kept.entries := by
  obtain ⟨-, removed, retained⟩ := add_retains recordedDisk (clockAt 1)
    (entryAt "2026-01-04T00:00:00Z" false) 2 (by decide) nofun
  change Retained 2 (recordedEntries ++ [entryAt "2026-01-04T00:00:00Z" false]) _ removed at retained
  refine ⟨removed, _, rfl, retained, retained.excess, ?_⟩
  generalize (historyOf _).entries = kept at retained ⊢
  by_contra gone
  -- were it removed, every kept one of the others would be known good
  have lost := (mem_append.mp (retained.parts.mem_iff.mpr (by simp [recordedEntries]))).resolve_right
    gone
  have size := retained.parts.length_eq
  rw [length_append, retained.excess] at size
  obtain ⟨k, found⟩ := exists_mem_of_length_pos (l := kept) (Nat.pos_of_ne_zero fun none => by
    rw [none] at size
    cases size)
  have good := retained.knownGood _ lost rfl k found
  have listed := retained.parts.mem_iff.mp (mem_append_right removed found)
  simp only [recordedEntries, cons_append, nil_append, mem_cons, not_mem_nil, or_false] at listed
  rcases listed with rfl | rfl | rfl | rfl
  · exact gone found
  all_goals cases good

end NuraOS.History
