/-
Purpose: The files of the A/B update, the transaction with its helpers, and runs of all operations.
Trusted boundary: `ed25519.Verify` and the formatting of a percentage are parameters
-/
import NuraOS.Delta.Operations
import NuraOS.Foundation.CrashProgram

namespace NuraOS.Update

open Foundation

inductive Slot where
  | a
  | b
deriving DecidableEq

def Slot.text : Slot → String
  | .a => "a"
  | .b => "b"

/-- `other`. -/
def Slot.other : Slot → Slot
  | .a => .b
  | .b => .a

@[simp] theorem Slot.other_other (slot : Slot) : slot.other.other = slot := by
  cases slot <;> rfl

theorem Slot.other_ne (slot : Slot) : slot.other ≠ slot := by
  cases slot <;> decide

/-- `TxState`, a string in the record. -/
inductive TxState where
  | staging
  | verifying
  | committed
  | aborted
  | unknown (text : String)
deriving DecidableEq

def TxState.text : TxState → String
  | .staging => "staging"
  | .verifying => "verifying"
  | .committed => "committed"
  | .aborted => "aborted"
  | .unknown text => text

/-- A reading of the clock: nanoseconds since 1970, and the second in RFC 3339. -/
structure Instant where
  unixNano : Int
  rfc3339 : String

/-- `update/staging/<txID>/rootfs-<slot>.ext4`. -/
structure StagedPath where
  txID : String
  slot : Slot
deriving DecidableEq

/-- `HealthSnapshot`. -/
structure HealthSnapshot where
  activeSlot : Slot
  timestamp : String
  servicesRunning : List String

/-- `Transaction`. -/
structure Transaction where
  id : String
  state : TxState
  targetSlot : Slot
  source : String
  stagedPath : StagedPath
  expectedSHA : String
  startedAt : String
  committedAt : String
  abortedAt : String
  abortReason : String
  health : Option HealthSnapshot

/-- `LogEntry`, without its timestamp. -/
structure LogEntry where
  txID : String
  event : String
  detail : String

/-- `history.Entry`. -/
structure HistoryEntry where
  id : String
  timestamp : String
  slot : Slot
  imageSHA : String
  imageVersion : String
  source : String
  packages : List String
  knownGood : Bool
  txID : String

/-- `history.db`. -/
structure HistoryDb where
  schema : Int
  entries : List HistoryEntry

/-- A file that is written as a whole: it holds what was written, or a part of it. -/
inductive File (α : Type) where
  | whole (value : α)
  | torn
deriving DecidableEq

/-- What operations look at that start later: `tx.json`, `etc/active-slot`, `update/history.json`, the
images under `/boot` and the staged ones. -/
structure Visible where
  txRecord : Option (File Transaction)
  activeSlotFile : Option (File Slot)
  historyFile : Option (File HistoryDb)
  rootfs : Slot → Option Bytes
  staged : StagedPath → Option Bytes

/-- The disk: besides, the temporary files, the audit log, and whatever lies elsewhere. -/
structure Disk extends Visible where
  txTmp : Option (File Transaction)
  activeSlotTmp : Option (File Slot)
  historyTmp : Option (File HistoryDb)
  auditLog : List LogEntry
  elsewhere : String → Option Bytes

def Disk.fresh (activeSlot : Option Slot) (rootfs : Slot → Option Bytes)
    (elsewhere : String → Option Bytes) : Disk :=
  { txRecord := none
    activeSlotFile := activeSlot.map .whole
    historyFile := none
    rootfs := rootfs
    staged := fun _ => none
    txTmp := none
    activeSlotTmp := none
    historyTmp := none
    auditLog := []
    elsewhere := elsewhere }

theorem Disk.fresh_readable (activeSlot : Option Slot) (rootfs : Slot → Option Bytes)
    (elsewhere : String → Option Bytes) :
    (Disk.fresh activeSlot rootfs elsewhere).activeSlotFile ≠ some .torn := by
  cases activeSlot with
  | none =>
    intro torn
    cases torn
  | some slot =>
    intro torn
    cases torn

/-- The slot the machine boots from: the one in `active-slot`, `a` without such a file. -/
def Visible.active (visible : Visible) : Slot :=
  match visible.activeSlotFile with
  | some (.whole slot) => slot
  | _ => .a

inductive ImagePath where
  | rootfs (slot : Slot)
  | elsewhere (path : String)

def ImagePath.text : ImagePath → String
  | .rootfs slot => "rootfs-" ++ slot.text ++ ".ext4"
  | .elsewhere path => path

def Disk.image (disk : Disk) : ImagePath → Option Bytes
  | .rootfs slot => disk.rootfs slot
  | .elsewhere path => disk.elsewhere path

/-- The transaction in `tx.json`. -/
def Visible.record (visible : Visible) : Option Transaction :=
  match visible.txRecord with
  | some (.whole tx) => some tx
  | _ => none

/-! ### Calls -/

inductive OsError where
  | notExist
  | device

def OsError.text : OsError → String
  | .notExist => "no such file or directory"
  | .device => "input/output error"

inductive DiskCall where
  | mkdirAll
  | statTx
  | readTx
  | writeTxTmp (tx : Transaction)
  | renameTx
  | readActiveSlot
  | writeActiveSlotTmp (slot : Slot)
  | renameActiveSlot
  | openStaged (path : StagedPath)
  | copyStaged (path : StagedPath) (data : Bytes)
  | closeStaged
  | renameStaged (path : StagedPath) (slot : Slot)
  | removeStaging (path : StagedPath)
  | appendLog (entry : LogEntry)
  | readImage (path : ImagePath)
  | readHistory
  | writeHistoryTmp (db : HistoryDb)
  | renameHistory

@[reducible] def DiskCall.Reply : DiskCall → Type
  | .readTx => Except OsError (File Transaction)
  | .readActiveSlot => Except OsError (File Slot)
  | .readImage _ => Except OsError Bytes
  | .readHistory => Except OsError (File HistoryDb)
  | _ => Except OsError Unit

def found {α : Type} : Option α → Except OsError α
  | none => .error .notExist
  | some value => .ok value

namespace Disk

variable (disk : Disk)

/-- `os.Rename` of a staged image to a boot slot. -/
def moveStaged (path : StagedPath) (slot : Slot) (image : Bytes) : Disk :=
  { disk with
    rootfs := Function.update disk.rootfs slot (some image)
    staged := Function.update disk.staged path none }

/-- `os.RemoveAll` of the directory of a staged image. -/
def dropStaging (path : StagedPath) : Disk :=
  { disk with staged := fun other => if other.txID = path.txID then none else disk.staged other }

@[reducible] def serve : (call : DiskCall) → call.Reply × Disk
  | .mkdirAll => (.ok (), disk)
  | .statTx => ((found disk.txRecord).map fun _ => (), disk)
  | .readTx => (found disk.txRecord, disk)
  | .writeTxTmp tx => (.ok (), { disk with txTmp := some (.whole tx) })
  | .renameTx =>
    match disk.txTmp with
    | none => (.error .notExist, disk)
    | some file => (.ok (), { disk with txRecord := some file, txTmp := none })
  | .readActiveSlot => (found disk.activeSlotFile, disk)
  | .writeActiveSlotTmp slot => (.ok (), { disk with activeSlotTmp := some (.whole slot) })
  | .renameActiveSlot =>
    match disk.activeSlotTmp with
    | none => (.error .notExist, disk)
    | some file => (.ok (), { disk with activeSlotFile := some file, activeSlotTmp := none })
  | .openStaged path =>
    (.ok (), { disk with staged := Function.update disk.staged path (some []) })
  | .copyStaged path data =>
    (.ok (), { disk with staged := Function.update disk.staged path (some data) })
  | .closeStaged => (.ok (), disk)
  | .renameStaged path slot =>
    match disk.staged path with
    | none => (.error .notExist, disk)
    | some image => (.ok (), disk.moveStaged path slot image)
  | .removeStaging path => (.ok (), disk.dropStaging path)
  | .appendLog entry => (.ok (), { disk with auditLog := disk.auditLog ++ [entry] })
  | .readImage path => (found (disk.image path), disk)
  | .readHistory => (found disk.historyFile, disk)
  | .writeHistoryTmp db => (.ok (), { disk with historyTmp := some (.whole db) })
  | .renameHistory =>
    match disk.historyTmp with
    | none => (.error .notExist, disk)
    | some file => (.ok (), { disk with historyFile := some file, historyTmp := none })

/-- What a call leaves behind that does not get to its end. Renaming is atomic; a file that is written
is torn, unless the call has not come as far as opening it. -/
@[reducible] def partly (amount : Nat) : DiskCall → Disk
  | .writeTxTmp _ => if amount = 0 then disk else { disk with txTmp := some .torn }
  | .writeActiveSlotTmp _ => if amount = 0 then disk else { disk with activeSlotTmp := some .torn }
  | .writeHistoryTmp _ => if amount = 0 then disk else { disk with historyTmp := some .torn }
  | .copyStaged path data =>
    { disk with
      staged := Function.update disk.staged path (some (data.take (min amount (data.length - 1)))) }
  | .removeStaging path => if amount = 0 then disk else disk.dropStaging path
  | _ => disk

@[reducible] def failure : (call : DiskCall) → call.Reply
  | .mkdirAll => .error .device
  | .statTx => .error .device
  | .readTx => .error .device
  | .writeTxTmp _ => .error .device
  | .renameTx => .error .device
  | .readActiveSlot => .error .device
  | .writeActiveSlotTmp _ => .error .device
  | .renameActiveSlot => .error .device
  | .openStaged _ => .error .device
  | .copyStaged _ _ => .error .device
  | .closeStaged => .error .device
  | .renameStaged _ _ => .error .device
  | .removeStaging _ => .error .device
  | .appendLog _ => .error .device
  | .readImage _ => .error .device
  | .readHistory => .error .device
  | .writeHistoryTmp _ => .error .device
  | .renameHistory => .error .device

end Disk

/-- The file system under the updater. A machine that stops inside a call has done all of it (amount
one) or only a part. -/
@[reducible] def diskCalls : Calls Disk where
  Call := DiskCall
  Reply := DiskCall.Reply
  serve call disk := disk.serve call
  fail call amount disk := (Disk.failure call, disk.partly amount call)
  tear call amount disk :=
    match amount with
    | 0 => disk.partly 0 call
    | 1 => (disk.serve call).2
    | amount + 2 => disk.partly (amount + 1) call

structure Platform where
  /-- `ed25519.Verify` for a key of the right length. -/
  ed25519Verify : (publicKey message sig : Bytes) → Bool
  /-- The percentage `copied / total` with one decimal. -/
  formatPercent : (copied total : Nat) → String

/-- An `io.Reader`: what it delivers, and the error it ends in, if any. -/
structure Reader where
  data : Bytes
  failure : Option String

structure Clock where
  begun : Instant
  snapshot : Instant
  finished : Instant

/-- The arguments of `Apply`. -/
structure ApplyArgs where
  r : Reader
  source : String
  expectedSHA : String
  sigBytes : Option Bytes
  runningServices : List String
  pubKey : Bytes
  clock : Clock

inductive UpdateError where
  | txExists
  | noActiveSlot (cause : String)
  | createStagingDir (cause : OsError)
  | saveTxRecord (cause : OsError)
  | stageImage (cause : String)
  | badImageSHA (got want : String)
  | badImageSig
  | commitToBootSlot (cause : OsError)
  | flipActiveSlot (cause : OsError)
  | readTx (cause : OsError)
  | parseTxRecord
  | recovery (cause : UpdateError)
  | unknownState (text : String)
  | noRecord
  | nothingToRollBack (state : String)
  | noHealthSnapshot
  | writeActiveSlot (cause : OsError)
  | readDeltaSource (path : String) (cause : OsError)
  | readDelta (cause : String)
  | deltaWithoutFallback (cause : String)

abbrev UpdateProg (α : Type) := Prog diskCalls α

def call (request : DiskCall) : UpdateProg request.Reply :=
  @Prog.perform _ diskCalls request

/-- `AuditLog.Log`. Errors are swallowed. -/
def log (txID event detail : String) : UpdateProg Unit := do
  let _ ← call (.appendLog { txID, event, detail })
  return ()

def saveTx (tx : Transaction) : UpdateProg (Except OsError Unit) :=
  (call (.writeTxTmp tx)).andThen fun _ => call .renameTx

def loadTx : UpdateProg (Except UpdateError Transaction) := do
  match ← call .readTx with
  | .error cause => return .error (.readTx cause)
  | .ok .torn => return .error .parseTxRecord
  | .ok (.whole tx) => return .ok tx

def Transaction.giveUp (tx : Transaction) (clock : Clock) (reason : String) : Transaction :=
  { tx with state := .aborted, abortedAt := clock.finished.rfc3339, abortReason := reason }

def Transaction.finish (tx : Transaction) (clock : Clock) : Transaction :=
  { tx with state := .committed, committedAt := clock.finished.rfc3339 }

/-- `abortTx`, and the transaction as it leaves it. -/
def abortTx (clock : Clock) (tx : Transaction) (reason : String) : UpdateProg Transaction := do
  let _ ← call (.removeStaging tx.stagedPath)
  let _ ← saveTx (tx.giveUp clock reason)
  log tx.id "tx.aborted" reason
  return tx.giveUp clock reason

/-- `stageImage`: the hash of what was staged. The file is closed on every path. -/
def stageImage (r : Reader) (dst : StagedPath) : UpdateProg (Except String String) := do
  match ← call (.openStaged dst) with
  | .error cause => return .error cause.text
  | .ok () =>
    match ← call (.copyStaged dst r.data) with
    | .error cause =>
      let _ ← call .closeStaged
      return .error cause.text
    | .ok () =>
      match ← call .closeStaged, r.failure with
      | _, some cause => return .error cause
      | .error cause, none => return .error cause.text
      | .ok (), none => return .ok (Sha256.sha256Hex r.data)

def atomicReplace (src : StagedPath) (dst : Slot) : UpdateProg (Except OsError Unit) :=
  (call .mkdirAll).andThen fun _ => call (.renameStaged src dst)

def readActiveSlot : UpdateProg (Except String Slot) := do
  match ← call .readActiveSlot with
  | .error .notExist => return .ok .a
  | .error cause => return .error cause.text
  | .ok .torn => return .error "invalid slot \"\""
  | .ok (.whole slot) => return .ok slot

def writeActiveSlot (slot : Slot) : UpdateProg (Except OsError Unit) :=
  (call .mkdirAll).andThen fun _ =>
    (call (.writeActiveSlotTmp slot)).andThen fun _ => call .renameActiveSlot

/-- The verb `%x`. -/
def formatHex (value : Int) : String :=
  let digits := String.ofList (Nat.toDigits 16 value.natAbs)
  if value < 0 then "-" ++ digits else digits

def shortID (now : Instant) : String :=
  formatHex now.unixNano

/-- `strings.EqualFold` on hexadecimal digits. -/
def equalFold (first second : String) : Bool :=
  first.toList.map Char.toLower == second.toList.map Char.toLower

/-! ### Apply -/

section Apply

variable (platform : Platform) (args : ApplyArgs)

def ApplyArgs.newTx (activeSlot : Slot) : Transaction :=
  { id := shortID args.clock.begun
    state := .staging
    targetSlot := activeSlot.other
    source := args.source
    stagedPath := { txID := shortID args.clock.begun, slot := activeSlot.other }
    expectedSHA := args.expectedSHA
    startedAt := args.clock.begun.rfc3339
    committedAt := ""
    abortedAt := ""
    abortReason := ""
    health := none }

def ApplyArgs.verifyingTx (activeSlot : Slot) : Transaction :=
  { args.newTx activeSlot with state := .verifying }

def ApplyArgs.healthyTx (activeSlot : Slot) : Transaction :=
  { args.verifyingTx activeSlot with
    health := some
      { activeSlot := activeSlot
        timestamp := args.clock.snapshot.rfc3339
        servicesRunning := args.runningServices } }

/-- The checks at the start, and the first record; the result is the active slot. -/
def beginTx : UpdateProg (Except UpdateError Slot) := do
  match ← call .statTx with
  | .ok () => return .error .txExists
  | .error _ =>
    match ← readActiveSlot with
    | .error cause => return .error (.noActiveSlot cause)
    | .ok activeSlot =>
      match ← call .mkdirAll with
      | .error cause => return .error (.createStagingDir cause)
      | .ok () =>
        match ← saveTx (args.newTx activeSlot) with
        | .error cause => return .error (.saveTxRecord cause)
        | .ok () =>
          log (args.newTx activeSlot).id "tx.begin"
            ("staging to inactive slot " ++ activeSlot.other.text ++ " from " ++
              args.source)
          return .ok activeSlot

def stage (tx : Transaction) : UpdateProg (Except UpdateError String) := do
  match ← stageImage args.r tx.stagedPath with
  | .error cause =>
    let _ ← abortTx args.clock tx ("staging failed: " ++ cause)
    return .error (.stageImage cause)
  | .ok actualSHA =>
    log tx.id "tx.staged" ("sha256=" ++ actualSHA ++ " size_ok")
    return .ok actualSHA

def ApplyArgs.checksSignature : Bool :=
  !args.pubKey.isEmpty && args.sigBytes.isSome

def ApplyArgs.shaMatches (actualSHA : String) : Bool :=
  args.expectedSHA == "" || equalFold actualSHA args.expectedSHA

/-- The two verify steps. `ed25519.Verify` panics on a key of the wrong length. -/
def verifyImage (tx : Transaction) (actualSHA : String) : UpdateProg (Except UpdateError Unit) := do
  let _ ← saveTx tx
  if args.shaMatches actualSHA = false then
    let _ ← abortTx args.clock tx
      ("sha256 mismatch: got " ++ actualSHA ++ " want " ++ args.expectedSHA)
    return .error (.badImageSHA actualSHA args.expectedSHA)
  else if args.checksSignature = false then
    return .ok ()
  else if args.pubKey.length ≠ 32 then
    .hang
  else if platform.ed25519Verify args.pubKey (utf8 actualSHA) (args.sigBytes.getD []) = false then
    let _ ← abortTx args.clock tx "signature verification failed"
    return .error .badImageSig
  else
    log tx.id "tx.sig_ok" "ed25519 signature verified"
    return .ok ()

def replaceImage (tx : Transaction) : UpdateProg (Except UpdateError Transaction) := do
  let _ ← saveTx tx
  match ← atomicReplace tx.stagedPath tx.targetSlot with
  | .error cause =>
    let _ ← abortTx args.clock tx ("atomic replace failed: " ++ cause.text)
    return .error (.commitToBootSlot cause)
  | .ok () => return .ok tx

def prepare : UpdateProg (Except UpdateError Transaction) :=
  (beginTx args).andThen fun activeSlot =>
    (stage args (args.newTx activeSlot)).andThen fun actualSHA =>
      (verifyImage platform args (args.verifyingTx activeSlot) actualSHA).andThen fun _ =>
        replaceImage args (args.healthyTx activeSlot)

def flipSlot (tx : Transaction) : UpdateProg (Except UpdateError Transaction) := do
  match ← writeActiveSlot tx.targetSlot with
  | .error cause =>
    log tx.id "tx.commit_partial"
      ("slot flip failed: " ++ cause.text ++ " (manual recovery needed)")
    return .error (.flipActiveSlot cause)
  | .ok () =>
    let _ ← saveTx (tx.finish args.clock)
    log tx.id "tx.committed" ("active slot now " ++ tx.targetSlot.text)
    let _ ← call (.removeStaging tx.stagedPath)
    return .ok (tx.finish args.clock)

/-- `Apply`. -/
def apply : UpdateProg (Except UpdateError Transaction) :=
  (prepare platform args).andThen (flipSlot args)

end Apply

/-- `Abort`. -/
def abort (clock : Clock) : UpdateProg (Except UpdateError Unit) := do
  match ← loadTx with
  | .error (.readTx .notExist) => return .ok ()
  | .error cause => return .error cause
  | .ok tx =>
    let _ ← abortTx clock tx "manual abort"
    return .ok ()

/-- `RecoveryResult`. -/
structure RecoveryResult where
  found : Bool
  txID : String
  state : TxState
  action : String

/-- `CheckRecovery`. The result reports the state after `abortTx` has changed it. -/
def checkRecovery (clock : Clock) : UpdateProg (Except UpdateError (Option RecoveryResult)) := do
  match ← loadTx with
  | .error (.readTx .notExist) => return .ok none
  | .error cause => return .error (.recovery cause)
  | .ok tx =>
    match tx.state with
    | .committed | .aborted => return .ok none
    | .staging | .verifying =>
      let tx ← abortTx clock tx
        ("interrupted in state " ++ tx.state.text ++ " (detected at boot)")
      return .ok (some { found := true, txID := tx.id, state := tx.state, action := "aborted" })
    | .unknown text => return .error (.unknownState text)

/-- `RollbackLastUpdate`. -/
def rollbackLastUpdate : UpdateProg (Except UpdateError Slot) := do
  match ← loadTx with
  | .error (.readTx .notExist) => return .error .noRecord
  | .error cause => return .error cause
  | .ok tx =>
    if tx.state ≠ .committed then
      return .error (.nothingToRollBack tx.state.text)
    else
      match tx.health with
      | none => return .error .noHealthSnapshot
      | some health =>
        match ← writeActiveSlot health.activeSlot with
        | .error cause => return .error (.writeActiveSlot cause)
        | .ok () =>
          log tx.id "tx.rolled_back"
            ("reverted from slot " ++ tx.targetSlot.text ++ " to " ++ health.activeSlot.text)
          return .ok health.activeSlot

/-- The arguments of `ApplyDelta`. -/
structure DeltaArgs where
  deltaReader : Reader
  fullImageFallback : Option Reader
  srcSlotPath : ImagePath
  source : String
  expectedDstSHA : String
  sigBytes : Option Bytes
  runningServices : List String
  pubKey : Bytes
  clock : Clock

/-- The call of `Apply` in `ApplyDelta`. -/
def DeltaArgs.toApply (args : DeltaArgs) (r : Reader) : ApplyArgs :=
  { r := r
    source := args.source
    expectedSHA := args.expectedDstSHA
    sigBytes := args.sigBytes
    runningServices := args.runningServices
    pubKey := args.pubKey
    clock := args.clock }

/-- `ApplyDelta`. -/
def applyDelta (platform : Platform) (args : DeltaArgs) :
    UpdateProg (Except UpdateError Transaction) := do
  match ← call (.readImage args.srcSlotPath) with
  | .error cause => return .error (.readDeltaSource args.srcSlotPath.text cause)
  | .ok srcData =>
    match args.deltaReader.failure with
    | some cause => return .error (.readDelta cause)
    | none =>
      match Delta.apply args.deltaReader.data srcData with
      | none => .hang
      | some (.error cause) =>
        match args.fullImageFallback with
        | none => return .error (.deltaWithoutFallback cause.text)
        | some fullImage =>
          log "" "delta.fallback"
            ("delta apply failed (" ++ cause.text ++ "); using full image")
          apply platform (args.toApply fullImage)
      | some (.ok res) =>
        log "" "delta.applied"
          ("copied=" ++ Nat.repr res.stats.copiedBlocks ++ " new=" ++
            Nat.repr res.stats.newBlocks ++ " savings=" ++
            platform.formatPercent res.stats.copiedBlocks res.stats.totalBlocks ++ "%")
        apply platform (args.toApply { data := res.image, failure := none })

inductive UpdateOp where
  | apply (args : ApplyArgs)
  | applyDelta (args : DeltaArgs)
  | abort (clock : Clock)
  | checkRecovery (clock : Clock)
  | rollbackLastUpdate

inductive OpResult where
  | applied (result : Except UpdateError Transaction)
  | aborted (result : Except UpdateError Unit)
  | recovered (result : Except UpdateError (Option RecoveryResult))
  | rolledBack (result : Except UpdateError Slot)

def UpdateOp.program (platform : Platform) : UpdateOp → UpdateProg OpResult
  | .apply args => (Update.apply platform args).bind fun result => .ret (.applied result)
  | .applyDelta args => (Update.applyDelta platform args).bind fun result => .ret (.applied result)
  | .abort clock => (Update.abort clock).bind fun result => .ret (.aborted result)
  | .checkRecovery clock =>
    (Update.checkRecovery clock).bind fun result => .ret (.recovered result)
  | .rollbackLastUpdate => Update.rollbackLastUpdate.bind fun result => .ret (.rolledBack result)

structure UpdateEvent where
  op : UpdateOp
  faults : List Fault

namespace Disk

variable (platform : Platform)

def step (disk : Disk) (event : UpdateEvent) : Disk :=
  ((event.op.program platform).run event.faults disk).store

def after (disk : Disk) (events : List UpdateEvent) : Disk :=
  events.foldl (step platform) disk

@[simp] theorem after_nil (disk : Disk) : disk.after platform [] = disk := rfl

@[simp] theorem after_cons (disk : Disk) (event : UpdateEvent) (events : List UpdateEvent) :
    disk.after platform (event :: events) = (disk.step platform event).after platform events := rfl

theorem after_append (disk : Disk) (first second : List UpdateEvent) :
    disk.after platform (first ++ second) = (disk.after platform first).after platform second := by
  simp [after]

def Throughout (condition : Disk → UpdateEvent → Prop) (disk : Disk) : List UpdateEvent → Prop
  | [] => True
  | event :: events =>
    condition disk event ∧ (disk.step platform event).Throughout condition events

theorem throughout_append (condition : Disk → UpdateEvent → Prop) (disk : Disk)
    (first second : List UpdateEvent) :
    disk.Throughout platform condition (first ++ second) ↔
      disk.Throughout platform condition first ∧
        (disk.after platform first).Throughout platform condition second := by
  induction first generalizing disk with
  | nil => simp [Throughout]
  | cons event events ih =>
    simp only [List.cons_append, Throughout, ih, after_cons, and_assoc]

end Disk

/-- One call of a run: the operation it belongs to, and the disk before and after it. -/
structure UpdateStep where
  op : UpdateOp
  before : Disk
  after : Disk

def Disk.trace (platform : Platform) (disk : Disk) : List UpdateEvent → List UpdateStep
  | [] => []
  | event :: events =>
    (((event.op.program platform).steps event.faults disk).map fun (before, after) =>
      { op := event.op, before, after }) ++ (disk.step platform event).trace platform events

end NuraOS.Update
