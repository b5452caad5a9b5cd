/-
Purpose: Journal records, the writer, the collector, reading, following and forwarding (`internal/journal/`).
Trusted boundary: delivery of a record to the remote end
-/
import Mathlib.Data.String.Basic
import NuraOS.Foundation.Json
import NuraOS.Foundation.Machine
import NuraOS.Foundation.Regexp
import NuraOS.Foundation.SortedMap
import NuraOS.Foundation.Timestamp

namespace NuraOS.Journal

open Foundation

/-- The records counted for a service, and when the count starts again (in nanoseconds). -/
structure FloodBucket where
  count : Nat
  reset : Int

structure FloodLimiter where
  maxPerSec : Int
  buckets : List (Bytes × FloodBucket)

def window : Int := 1000000000

/-- `Allow`, at the time `now`: the answer, and the limiter afterwards. -/
def FloodLimiter.allow (limiter : FloodLimiter) (now : Int) (service : Bytes) : Bool × FloodLimiter :=
  let found := ((limiter.buckets.find? (·.1 = service)).map (·.2)).getD
    { count := 0, reset := now + window }
  let current := if found.reset < now then { count := 0, reset := now + window } else found
  let counted := { current with count := current.count + 1 }
  (counted.count ≤ limiter.maxPerSec,
    { limiter with buckets := (service, counted) :: limiter.buckets.filter (·.1 ≠ service) })

open Foundation.GoJson

structure Priority where
  level : Int64
deriving DecidableEq

namespace Priority

def emergency : Priority := { level := 0 }

def info : Priority := { level := 6 }

def debug : Priority := { level := 7 }

end Priority

structure Record where
  time : Timestamp
  service : Bytes
  pid : Int64
  pri : Priority
  message : Bytes
deriving DecidableEq

def Record.zero : Record where
  time := .zero
  service := []
  pid := 0
  pri := .emergency
  message := []

/-- The fields after `ts`, in the order of the struct; a zero `pid` is omitted. -/
def Record.fields (record : Record) : List (String × Value) :=
  ("svc", .text record.service) ::
    ((if record.pid = 0 then [] else [("pid", .int record.pid.toInt)]) ++
      [("pri", .int record.pri.level.toInt), ("msg", .text record.message)])

/-- `json.Marshal`; nothing when the time cannot be encoded. -/
def Record.marshal (record : Record) : Option Bytes :=
  record.time.marshal.map fun ts =>
    utf8 (String.ofList (printObject "ts" (.text (utf8 (String.ofList ts))) record.fields))

def Record.marshalNDJSON (record : Record) : Option Bytes :=
  record.marshal.map (· ++ [newline])

/-- The case folding with which `encoding/json` looks up a field. -/
def foldName (key : String) : String :=
  String.ofList (key.toList.map fun c => if c = 'ſ' then 'S' else c.toUpper)

def decodeTime (old : Timestamp) : Json → Option Timestamp
  | .null => some old
  | .str text => Timestamp.unmarshal text.toList
  | _ => none

def decodeText (old : Bytes) : Json → Option Bytes
  | .null => some old
  | .str text => some (utf8 text)
  | _ => none

def decodeInt (old : Int64) : Json → Option Int64
  | .null => some old
  | .num value =>
    if Int64.minValue.toInt ≤ value ∧ value ≤ Int64.maxValue.toInt then
      some (Int64.ofInt value)
    else
      none
  | _ => none

def Record.setField (record : Record) (field : String × Json) : Option Record :=
  match foldName field.1 with
  | "TS" => (decodeTime record.time field.2).map fun time => { record with time }
  | "SVC" => (decodeText record.service field.2).map fun service => { record with service }
  | "PID" => (decodeInt record.pid field.2).map fun pid => { record with pid }
  | "PRI" => (decodeInt record.pri.level field.2).map fun level => { record with pri := { level } }
  | "MSG" => (decodeText record.message field.2).map fun message => { record with message }
  | _ => some record

def unmarshalNDJSON (line : Bytes) : Option Record :=
  match Json.parse (toText line).toList with
  | some (.obj fields) => fields.foldlM Record.setField .zero
  | some .null => some .zero
  | _ => none

/-- What a record reads back as: bytes that are not UTF-8 have become replacement characters. -/
def Record.stored (record : Record) : Record :=
  { record with
    service := utf8 (toText record.service)
    message := utf8 (toText record.message) }

theorem decodeInt_toInt (old value : Int64) : decodeInt old (.num value.toInt) = some value := by
  have range := And.intro value.minValue_le_toInt value.toInt_le
  rw [decodeInt, if_pos range, Int64.ofInt_toInt]

section ReadBack

variable {record : Record} {body : Bytes}

theorem Record.stored_eq_self_iff :
    record.stored = record ↔
      (∃ text, record.service = utf8 text) ∧ ∃ text, record.message = utf8 text := by
  rw [← utf8_toText_eq_iff, ← utf8_toText_eq_iff]
  constructor
  · intro same
    exact ⟨congrArg Record.service same, congrArg Record.message same⟩
  · rintro ⟨service, message⟩
    rw [stored, service, message]

theorem unmarshalNDJSON_marshal
    (encoded : record.marshal = some body) : unmarshalNDJSON body = some record.stored := by
  obtain ⟨ts, printed, rfl⟩ := Option.map_eq_some_iff.mp encoded
  have time : decodeTime Timestamp.zero (.str (String.ofList ts)) = some record.time := by
    simpa [decodeTime] using unmarshal_marshal printed
  rw [unmarshalNDJSON, toText_utf8, String.toList_ofList, parse_printObject]
  unfold Record.fields
  split_ifs with zero
  · simp [Record.setField, Value.json, foldName, Record.zero, time, decodeText, decodeInt_toInt,
      Record.stored, zero]
  · simp [Record.setField, Value.json, foldName, Record.zero, time, decodeText, decodeInt_toInt,
      Record.stored]

theorem newline_not_mem_marshal (encoded : record.marshal = some body) : newline ∉ body := by
  obtain ⟨ts, -, rfl⟩ := Option.map_eq_some_iff.mp encoded
  apply newline_not_mem_utf8
  rw [String.toList_ofList]
  exact newline_not_mem_printObject _ _ _

theorem marshal_concat (encoded : record.marshal = some body) : ∃ front, body = front ++ [125] := by
  obtain ⟨ts, -, rfl⟩ := Option.map_eq_some_iff.mp encoded
  obtain ⟨front, shape⟩ :=
    printObject_concat "ts" (.text (utf8 (String.ofList ts))) record.fields
  refine ⟨utf8 (String.ofList front), ?_⟩
  rw [shape, String.ofList_append, utf8_append]
  rfl

end ReadBack

/-! ### The writer and the collector -/

open Foundation.Scanner

/-- The `.journal` files of the directory and their contents, as `listJournalFiles` sorts them. -/
abbrev Directory := SortedMap String Bytes

inductive Handle where
  /-- It is the file named `today`. -/
  | linked
  /-- It has been removed from the directory. -/
  | unlinked
deriving DecidableEq

structure Writer where
  dir : Directory
  maxSize : Nat
  file : Option Handle
  today : String
  limiter : Option FloodLimiter

/-- `DefaultMaxSize`. -/
def defaultMaxSize : Nat := 100 * 1024 * 1024

/-- `NewWriter`. -/
def Writer.new (dir : Directory) (maxSize : Int) : Writer where
  dir := dir
  maxSize := if maxSize ≤ 0 then defaultMaxSize else maxSize.toNat
  file := none
  today := ""
  limiter := none

/-- `t.UTC().Format(filePattern)`. -/
def dayFile (time : Timestamp) : String :=
  String.ofList time.utcDate.print ++ ".journal"

namespace Writer

/-- `ensureFile`. -/
def ensureFile (writer : Writer) (time : Timestamp) : Writer :=
  if writer.today = dayFile time ∧ writer.file ≠ none then
    writer
  else
    { writer with
      dir := writer.dir.alter (dayFile time) fun old => old.getD []
      file := some .linked
      today := dayFile time }

/-- `file.Write`; the file is open for appending. -/
def appendLine (writer : Writer) (line : Bytes) : Writer :=
  match writer.file with
  | some .linked =>
    { writer with dir := writer.dir.alter writer.today fun old => old.getD [] ++ line }
  | some .unlinked | none => writer

end Writer

/-- The loop of `enforceCap`: the files that are left. -/
def removeOldest (maxSize : Nat) : Nat → List (String × Bytes) → List (String × Bytes)
  | _, [] => []
  | total, file :: files =>
    if total ≤ maxSize then file :: files
    else removeOldest maxSize (total - file.2.length) files

theorem removeOldest_sublist (maxSize total : Nat) (files : List (String × Bytes)) :
    (removeOldest maxSize total files).Sublist files := by
  induction files generalizing total with
  | nil => exact .slnil
  | cons file files ih =>
    rw [removeOldest]
    split
    · exact .refl _
    · exact (ih _).cons file

def totalSize (files : List (String × Bytes)) : Nat :=
  (files.map fun file => file.2.length).sum

namespace Writer

/-- `enforceCap`. -/
def enforceCap (writer : Writer) : Writer :=
  let kept := writer.dir.sub (removeOldest writer.maxSize (totalSize writer.dir.entries) writer.dir.entries)
    (removeOldest_sublist _ _ _)
  { writer with
    dir := kept
    file :=
      -- The open file outlives its name.
      match writer.file with
      | some .linked => if (kept.lookup writer.today).isSome then some .linked else some .unlinked
      | other => other }

/-- `Write` past the limiter. -/
def store (writer : Writer) (time : Timestamp) (line : Bytes) : Writer :=
  ((writer.ensureFile time).appendLine line).enforceCap

/-- `Write`, at the time `now`; nothing when the record cannot be encoded. -/
def write (writer : Writer) (now : Int) (record : Record) : Option Writer :=
  record.marshalNDJSON.map fun line =>
    match writer.limiter.map (·.allow now record.service) with
    | some (false, limiter) => { writer with limiter := some limiter }
    | some (true, limiter) => { writer with limiter := some limiter }.store record.time line
    | none => writer.store record.time line

/-- `Close`. -/
def close (writer : Writer) : Writer :=
  { writer with file := none }

end Writer

inductive Call where
  | write (now : Int) (record : Record)
  | close
  /-- A new writer on the directory. -/
  | reopen (maxSize : Int)

/-- One call; a failed `Write` leaves everything as it is. -/
def Writer.call (writer : Writer) : Call → Writer
  | .write now record => (writer.write now record).getD writer
  | .close => writer.close
  | .reopen maxSize => Writer.new writer.dir maxSize

/-- The source of a collected stream, with the readings of the clock for each record: the time it is
given, and the time at which the limiter sees it. -/
structure Source where
  service : Bytes
  pid : Int64
  pri : Priority
  clock : Nat → Timestamp × Int

def Source.record (source : Source) (reading : Nat) (line : Bytes) : Record where
  time := (source.clock reading).1
  service := source.service
  pid := source.pid
  pri := source.pri
  message := line

/-- The loop of `Collect`. -/
def collectLines (source : Source) : Nat → Writer → List Bytes → Writer
  | _, writer, [] => writer
  | reading, writer, line :: lines =>
    if line = [] then
      collectLines source reading writer lines
    else
      collectLines source (reading + 1)
        (writer.call (.write (source.clock reading).2 (source.record reading line))) lines

/-- `Collect` on a stream that ends: the writer afterwards, and where the scanner stopped. -/
def collect (source : Source) (writer : Writer) (input : Bytes) : Writer × ScanEnd :=
  (collectLines source 0 writer (scan true input).tokens, (scan true input).ending)

/-- `Filter`; a zero field does not restrict. -/
structure Filter where
  service : Bytes := []
  minPriority : Priority := .emergency
  since : Timestamp := .zero
  untilTime : Timestamp := .zero
  limit : Int := 0

/-- `IsZero`. -/
def isZero (time : Timestamp) : Bool :=
  time.instant = Timestamp.zero.instant

/-- `matches`. -/
def Filter.matches (filter : Filter) (record : Record) : Bool :=
  !(filter.service ≠ [] && record.service ≠ filter.service) &&
    !(filter.minPriority.level < record.pri.level) &&
    !(!isZero filter.since && record.time.before filter.since) &&
    !(!isZero filter.untilTime && !record.time.before filter.untilTime)

def decodeMatching (filter : Filter) (line : Bytes) : Option Record :=
  if line = [] then none else (unmarshalNDJSON line).filter filter.matches

/-- `f.Limit > 0 && len(results) >= f.Limit`. -/
def Filter.reached (filter : Filter) (results : List Record) : Bool :=
  0 < filter.limit && filter.limit ≤ results.length

/-- The loop of `scanFile`: the results, and whether it stopped at the limit. -/
def scanTokens (filter : Filter) : List Record → List Bytes → List Record × Bool
  | results, [] => (results, false)
  | results, line :: lines =>
    match decodeMatching filter line with
    | none => scanTokens filter results lines
    | some record =>
      if filter.reached (results ++ [record]) then (results ++ [record], true)
      else scanTokens filter (results ++ [record]) lines

/-- `scanFile`; nothing when the scanner has met an error. -/
def scanFile (filter : Filter) (content : Bytes) : Option (List Record) :=
  let scanned := scan true content
  match scanTokens filter [] scanned.tokens with
  | (results, true) => some results
  | (results, false) => if scanned.ending = .tooLong then none else some results

/-- The loop of `Query`. -/
def queryFiles (filter : Filter) : List Record → List (String × Bytes) → List Record
  | results, [] => results
  | results, file :: files =>
    match scanFile filter file.2 with
    | none => queryFiles filter results files
    | some records =>
      if filter.reached (results ++ records) then (results ++ records).take filter.limit.toNat
      else queryFiles filter (results ++ records) files

/-- `Query`. -/
def query (dir : Directory) (filter : Filter) : List Record :=
  let filter :=
    if filter.minPriority.level = 0 ∧ isZero filter.since then
      { filter with minPriority := .debug }
    else
      filter
  queryFiles filter [] dir.entries

/-- Where the loop of `Follow` is, each before the call it names. -/
inductive Phase where
  /-- `listJournalFiles`. -/
  | listing
  /-- `os.Stat`, if the latest file is not the current one. -/
  | statting (latest : String)
  /-- `os.Open`, and the scan from the current offset on. -/
  | reading
deriving DecidableEq

structure Following where
  writer : Writer
  /-- The `Write` between `ensureFile` and the write of its line. -/
  pending : Option (Record × Bytes)
  phase : Phase
  curPath : Option String
  curOffset : Nat
  /-- The number of polls that have ended. -/
  polls : Nat
  /-- History: what has been written since the first poll ended. -/
  written : List Record
  /-- History: what has been passed to `onRecord` since the first poll ended. -/
  delivered : List Record

/-- `Follow` is called. -/
def Following.start (writer : Writer) : Following where
  writer := writer
  pending := none
  phase := .listing
  curPath := none
  curOffset := 0
  polls := 0
  written := []
  delivered := []

inductive FollowStep where
  /-- A call of `Write`, up to and with `ensureFile`. -/
  | begin (record : Record)
  /-- The rest of it. -/
  | append
  | list
  | stat
  | read

def Following.step (filter : Filter) (state : Following) : FollowStep → Option Following
  | .begin record =>
    match state.pending, record.marshalNDJSON with
    | none, some line =>
      some { state with
        writer := state.writer.ensureFile record.time
        pending := some (record, line) }
    | _, _ => none
  | .append =>
    match state.pending with
    | some (record, line) =>
      some { state with
        writer := (state.writer.appendLine line).enforceCap
        pending := none
        written := if 0 < state.polls then state.written ++ [record] else state.written }
    | none => none
  | .list =>
    match state.phase, state.writer.dir.last with
    | .listing, none => some { state with polls := state.polls + 1 }
    | .listing, some latest => some { state with phase := .statting latest }
    | _, _ => none
  | .stat =>
    match state.phase with
    | .statting latest =>
      if state.curPath = some latest then
        some { state with phase := .reading }
      else
        -- The offset starts at the end of the file, to avoid backfilling.
        some { state with
          curPath := some latest
          curOffset := ((state.writer.dir.lookup latest).getD []).length
          phase := .reading }
    | _ => none
  | .read =>
    match state.phase, state.curPath with
    | .reading, some path =>
      match state.writer.dir.lookup path with
      | none => some { state with phase := .listing, polls := state.polls + 1 }
      | some content =>
        let unread := content.drop state.curOffset
        let found := (scan true unread).tokens.filterMap (decodeMatching filter)
        some { state with
          curOffset := state.curOffset + bytesRead unread
          phase := .listing
          polls := state.polls + 1
          delivered := if 0 < state.polls then state.delivered ++ found else state.delivered }
    | _, _ => none

open Foundation.Regexp Foundation.BytePattern

/-- `(?i)(password|passwd|secret|token|api[_-]?key|apikey|auth[_-]?key|credential)` -/
def secretNames : Regexp UInt8 :=
  choice (ignoringCase "password")
    [ignoringCase "passwd",
      ignoringCase "secret",
      ignoringCase "token",
      sequence [ignoringCase "api", maybe (among (utf8 "_-")), ignoringCase "key"],
      ignoringCase "apikey",
      sequence [ignoringCase "auth", maybe (among (utf8 "_-")), ignoringCase "key"],
      ignoringCase "credential"]

/-- The byte of `=`. -/
def equalsSign : UInt8 := 61

/-- A secret name, `=` and the value: `…=\S+`. -/
def assignment : Regexp UInt8 :=
  .cat secretNames (.cat (among [equalsSign]) (plus solid))

/-- `(?i)bearer\s+\S+` -/
def bearerHeader : Regexp UInt8 :=
  .cat (ignoringCase "bearer") (.cat (plus blank) (plus solid))

/-- `DefaultRedactPatterns`. -/
def defaultRedactPatterns : List (Regexp UInt8) :=
  [assignment, bearerHeader]

theorem within_secretNames : Within (· ∉ [equalsSign, 9, 10, 12, 13, 32]) secretNames := by decide +kernel

theorem within_bearer : Within (· ∉ [equalsSign, 9, 10, 12, 13, 32]) (ignoringCase "bearer") := by decide +kernel

theorem unanchored_assignment : Unanchored assignment := by decide +kernel

theorem unanchored_bearerHeader : Unanchored bearerHeader := by decide +kernel

def redactedText : Bytes :=
  utf8 "[REDACTED]"

/-- The separators `=`, space and tab, in the order in which they are looked for. -/
def separators : List UInt8 :=
  [equalsSign, 32, 9]

/-- What a match becomes: it is kept up to the first separator that occurs in it. -/
def redactMatch (found : Bytes) : Bytes :=
  match separators.findSome? fun separator => through separator found with
  | some kept => kept ++ redactedText
  | none => redactedText

/-- `Redact`. -/
def redact (message : Bytes) (patterns : List (Regexp UInt8)) : Bytes :=
  patterns.foldl (fun message pattern => replaceAll pattern redactMatch message) message

end NuraOS.Journal
