/-
Purpose: The version history store, `nuractl update apply`, and what both are for, without files.
-/
import Mathlib.Data.String.Basic
import NuraOS.Proofs.UpdateSafety

namespace NuraOS.History

open Foundation Update

def defaultMaxEntries : Int := 10

inductive HistoryError where
  | read (cause : OsError)
  | parse
  | save (cause : OsError)
  | notFound (id : String)
  | writeActiveSlot (cause : OsError)

structure AddClock where
  named : Instant
  stamped : Instant

/-- The first pass of `prune`: entries that are not known good are left out until `excess` of them have
been removed. -/
def removeUnmarked (excess : Nat) : (removed : Nat) → List HistoryEntry → List HistoryEntry
  | _, [] => []
  | removed, e :: entries =>
    if e.knownGood = false ∧ removed < excess then
      removeUnmarked excess (removed + 1) entries
    else
      e :: removeUnmarked excess removed entries

/-- `sort.SliceStable` by timestamp, oldest first. -/
def sortByTimestamp (entries : List HistoryEntry) : List HistoryEntry :=
  entries.mergeSort fun first second => !decide (second.timestamp < first.timestamp)

/-- The entries `prune` keeps. -/
def pruneEntries (max : Nat) (entries : List HistoryEntry) : List HistoryEntry :=
  if entries.length ≤ max then
    entries
  else
    let filtered := removeUnmarked (entries.length - max) 0 (sortByTimestamp entries)
    if filtered.length > max then filtered.drop (filtered.length - max) else filtered

/-- `prune`. With a negative limit the slice of its second pass starts past the end of the list, and it
panics. -/
def prune (d : HistoryDb) (max : Int) : Option HistoryDb :=
  if max < 0 then none else some { d with entries := pruneEntries max.toNat d.entries }

namespace Store

def load : UpdateProg (Except HistoryError HistoryDb) := do
  match ← call .readHistory with
  | .error .notExist => return .ok { schema := 1, entries := [] }
  | .error cause => return .error (.read cause)
  | .ok .torn => return .error .parse
  | .ok (.whole d) => return .ok d

def save (d : HistoryDb) : UpdateProg (Except HistoryError Unit) := do
  match ← (call .mkdirAll).andThen fun _ =>
      (call (.writeHistoryTmp d)).andThen fun _ => call .renameHistory with
  | .error cause => return .error (.save cause)
  | .ok () => return .ok ()

/-- The defaults `Add` fills in. -/
def complete (clock : AddClock) (e : HistoryEntry) : HistoryEntry :=
  { e with
    id := if e.id = "" then formatHex clock.named.unixNano else e.id
    timestamp := if e.timestamp = "" then clock.stamped.rfc3339 else e.timestamp }

/-- `Add`. -/
def add (clock : AddClock) (e : HistoryEntry) (maxEntries : Int) :
    UpdateProg (Except HistoryError Unit) :=
  load.andThen fun d =>
    match prune { d with entries := d.entries ++ [complete clock e] }
        (if maxEntries ≤ 0 then defaultMaxEntries else maxEntries) with
    | none => .hang
    | some d => save d

/-- The loop of `MarkKnownGood`: the first entry with the identifier is marked. -/
def markFirst (id : String) : List HistoryEntry → Option (List HistoryEntry)
  | [] => none
  | e :: entries =>
    if e.id = id then
      some ({ e with knownGood := true } :: entries)
    else
      (markFirst id entries).map (e :: ·)

/-- `MarkKnownGood`. -/
def markKnownGood (id : String) : UpdateProg (Except HistoryError Unit) :=
  load.andThen fun d =>
    match markFirst id d.entries with
    | some entries => save { d with entries := entries }
    | none => .ret (.error (.notFound id))

def lookup (id : String) (entries : List HistoryEntry) : Option HistoryEntry :=
  entries.find? fun e => e.id == id

/-- `Get`. A history that cannot be read is taken for an empty one. -/
def get (id : String) : UpdateProg (Option HistoryEntry) := do
  match ← load with
  | .error _ => return none
  | .ok d => return lookup id d.entries

def rollbackEntry (id : String) (clock : AddClock) (e : HistoryEntry) : HistoryEntry :=
  { id := ""
    timestamp := clock.stamped.rfc3339
    slot := e.slot
    imageSHA := e.imageSHA
    imageVersion := e.imageVersion
    source := "rollback to " ++ id
    packages := []
    knownGood := false
    txID := id }

/-- `RollbackTo`. Its `writeActiveSlot` is a copy of the updater's. -/
def rollbackTo (id : String) (clock : AddClock) : UpdateProg (Except HistoryError Unit) := do
  match ← get id with
  | none => return .error (.notFound id)
  | some e =>
    match ← writeActiveSlot e.slot with
    | .error cause => return .error (.writeActiveSlot cause)
    | .ok () => add clock (rollbackEntry id clock e) defaultMaxEntries

end Store

/-- The entry `nuractl` records for an update. -/
def updateEntry (tx : Transaction) : HistoryEntry :=
  { id := tx.id
    timestamp := ""
    slot := tx.targetSlot
    imageSHA := tx.expectedSHA
    imageVersion := ""
    source := tx.source
    packages := []
    knownGood := false
    txID := tx.id }

/-- `nuractl update apply`. That the history could not be written is ignored. -/
def cmdUpdateApply (platform : Platform) (args : ApplyArgs) (clock : AddClock) :
    UpdateProg (Except UpdateError Transaction) :=
  (apply platform args).andThen fun tx => do
    let _ ← Store.add clock (updateEntry tx) 0
    return .ok tx

structure Versions where
  active : Slot
  images : Slot → Option Bytes
  entries : List HistoryEntry

section Events

variable (platform : Platform)

structure CheckedUpdate where
  args : ApplyArgs
  clock : AddClock
  expects : args.expectedSHA ≠ ""
  accepted : args.accepted platform = true

/-- An update that is recorded and whose transaction record is then cleared away, or an operation of the
history. -/
inductive VersionEvent where
  | update (checked : CheckedUpdate platform)
  | markKnownGood (id : String)
  | rollbackTo (id : String) (clock : AddClock)

end Events

variable {platform : Platform}

namespace Versions

def recorded (versions : Versions) (clock : AddClock) (e : HistoryEntry) : List HistoryEntry :=
  pruneEntries 10 (versions.entries ++ [Store.complete clock e])

def step (versions : Versions) : VersionEvent platform → Versions
  | .update checked =>
    { active := versions.active.other
      images := Function.update versions.images versions.active.other
        (some checked.args.r.data)
      entries := versions.recorded checked.clock
        (updateEntry (checked.args.newTx versions.active)) }
  | .markKnownGood id =>
    { versions with entries := (Store.markFirst id versions.entries).getD versions.entries }
  | .rollbackTo id clock =>
    match Store.lookup id versions.entries with
    | none => versions
    | some e =>
      { versions with
        active := e.slot
        entries := versions.recorded clock (Store.rollbackEntry id clock e) }

end Versions

/-- The history as `load` returns it. -/
def historyOf (visible : Visible) : HistoryDb :=
  match visible.historyFile with
  | some (.whole d) => d
  | _ => { schema := 1, entries := [] }

def versionsOf (visible : Visible) : Versions :=
  { active := visible.active
    images := visible.rootfs
    entries := (historyOf visible).entries }

@[simp] theorem entries_versionsOf (visible : Visible) :
    (versionsOf visible).entries = (historyOf visible).entries := rfl

@[simp] theorem images_versionsOf (visible : Visible) :
    (versionsOf visible).images = visible.rootfs := rfl

def cleared (disk : Disk) : Disk :=
  { disk with txRecord := none }

def versionStep (disk : Disk) : VersionEvent platform → Disk
  | .update checked => cleared ((cmdUpdateApply platform checked.args checked.clock).run [] disk).store
  | .markKnownGood id => ((Store.markKnownGood id).run [] disk).store
  | .rollbackTo id clock => ((Store.rollbackTo id clock).run [] disk).store

def versionRun (disk : Disk) (events : List (VersionEvent platform)) : Disk :=
  events.foldl versionStep disk

def VersionEvent.updateInto (slot active : Slot) :
    VersionEvent platform → Option (CheckedUpdate platform)
  | .update checked => if active.other = slot then some checked else none
  | _ => none

def lastUpdateInto (slot : Slot) (disk : Disk) :
    List (VersionEvent platform) → Option (CheckedUpdate platform)
  | [] => none
  | event :: events =>
    (lastUpdateInto slot (versionStep disk event) events).or (event.updateInto slot disk.active)

end NuraOS.History
