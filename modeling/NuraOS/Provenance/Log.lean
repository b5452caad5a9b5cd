/-
Purpose: The append-only provenance log in `/data/sessions`: entries, hash chain, writer, verifier and runs, and
  the jobs `diskmon.Reclaim` and `compliance.DeleteExpired` beside it.
Trusted boundary: the serialiser is a parameter (`SerdeJson`) with the laws the code relies on; `sort.Slice` is
  any function that sorts by modification time
-/
import Mathlib.Data.List.Sort
import Mathlib.Data.String.Basic
import NuraOS.Foundation.CrashProgram
import NuraOS.Foundation.HashChain
import NuraOS.Foundation.Json
import NuraOS.Foundation.Timestamp

namespace NuraOS.Provenance

open Foundation List

/-- A regular file. Its inode is what an open handle refers to, also after the name is gone. -/
structure SessionFile where
  name : String
  inode : Nat
  data : Bytes
  mtime : Int

/-- The directory. No two of its files share a name or an inode, and inodes are handed out in
order. -/
structure SessionsDir where
  files : List SessionFile
  nextInode : Nat
  namesNodup : (files.map (·.name)).Nodup
  inodesNodup : (files.map (·.inode)).Nodup
  inodesBelow : ∀ file ∈ files, file.inode < nextInode

namespace SessionsDir

def empty : SessionsDir :=
  { files := [], nextInode := 0, namesNodup := nodup_nil, inodesNodup := nodup_nil
    inodesBelow := forall_mem_nil _ }

def names (dir : SessionsDir) : List String :=
  dir.files.map (·.name)

def find (dir : SessionsDir) (name : String) : Option SessionFile :=
  dir.files.find? (·.name == name)

def read (dir : SessionsDir) (name : String) : Option Bytes :=
  (dir.find name).map (·.data)

def create (dir : SessionsDir) (name : String) (now : Int) (free : dir.find name = none) :
    SessionsDir :=
  { files := dir.files ++ [{ name := name, inode := dir.nextInode, data := [], mtime := now }]
    nextInode := dir.nextInode + 1
    namesNodup := by
      rw [map_append, map_singleton]
      refine nodup_append.mpr ⟨dir.namesNodup, by simp, ?_⟩
      intro other member new isNew equality
      obtain ⟨file, inFiles, rfl⟩ := mem_map.mp member
      have absent := find?_eq_none.mp free file inFiles
      simp_all
    inodesNodup := by
      rw [map_append, map_singleton]
      refine nodup_append.mpr ⟨dir.inodesNodup, by simp, ?_⟩
      intro other member new isNew equality
      obtain ⟨file, inFiles, rfl⟩ := mem_map.mp member
      have below := dir.inodesBelow file inFiles
      simp_all
    inodesBelow := by
      intro file member
      rcases mem_append.mp member with old | new
      · exact Nat.lt_succ_of_lt (dir.inodesBelow file old)
      · rw [mem_singleton.mp new]
        exact Nat.lt_succ_self _ }

def appendFile (inode : Nat) (data : Bytes) (now : Int) (file : SessionFile) : SessionFile :=
  if file.inode = inode ∧ data ≠ [] then
    { file with data := file.data ++ data, mtime := now }
  else
    file

@[simp] theorem appendFile_name (inode : Nat) (data : Bytes) (now : Int) (file : SessionFile) :
    (appendFile inode data now file).name = file.name := by
  unfold appendFile
  split <;> rfl

@[simp] theorem appendFile_inode (inode : Nat) (data : Bytes) (now : Int) (file : SessionFile) :
    (appendFile inode data now file).inode = file.inode := by
  unfold appendFile
  split <;> rfl

/-- Add bytes at the end of the file behind an inode. A handle to a file that was removed writes to
no file of the directory. -/
def appendTo (dir : SessionsDir) (inode : Nat) (data : Bytes) (now : Int) : SessionsDir :=
  { files := dir.files.map (appendFile inode data now)
    nextInode := dir.nextInode
    namesNodup := by simpa [Function.comp_def] using dir.namesNodup
    inodesNodup := by simpa [Function.comp_def] using dir.inodesNodup
    inodesBelow := by
      intro file member
      obtain ⟨original, inFiles, rfl⟩ := mem_map.mp member
      simpa using dir.inodesBelow original inFiles }

def keep (dir : SessionsDir) (kept : SessionFile → Bool) : SessionsDir :=
  { files := dir.files.filter kept
    nextInode := dir.nextInode
    namesNodup := dir.namesNodup.sublist (filter_sublist.map _)
    inodesNodup := dir.inodesNodup.sublist (filter_sublist.map _)
    inodesBelow := fun file member => dir.inodesBelow file (mem_of_mem_filter member) }

@[ext] theorem ext {first second : SessionsDir} (files : first.files = second.files)
    (nextInode : first.nextInode = second.nextInode) : first = second := by
  cases first
  cases second
  simp_all

/-! ### What the operations do to names and contents -/

variable {dir : SessionsDir} {name other : String} {file : SessionFile}
  {kept : SessionFile → Bool}

theorem find_eq_some_iff : dir.find name = some file ↔ file ∈ dir.files ∧ file.name = name := by
  constructor
  · intro found
    exact ⟨mem_of_find?_eq_some found, by simpa using find?_some found⟩
  · rintro ⟨member, rfl⟩
    cases found : dir.find file.name with
    | none =>
      have absent := find?_eq_none.mp found file member
      simp at absent
    | some other =>
      have otherMember := mem_of_find?_eq_some found
      have sameName : other.name = file.name := by simpa using find?_some found
      rw [inj_on_of_nodup_map dir.namesNodup otherMember member sameName]

theorem find_eq_none_iff : dir.find name = none ↔ name ∉ dir.names := by
  simp [find, names, find?_eq_none]

theorem exists_find_of_mem (member : name ∈ dir.names) : ∃ file, dir.find name = some file := by
  apply Option.ne_none_iff_exists'.mp
  intro missing
  exact find_eq_none_iff.mp missing member

theorem name_eq_of_inode_eq {otherFile : SessionFile}
    (found : dir.find name = some file) (otherFound : dir.find other = some otherFile)
    (sameInode : file.inode = otherFile.inode) : name = other := by
  obtain ⟨member, rfl⟩ := find_eq_some_iff.mp found
  obtain ⟨otherMember, rfl⟩ := find_eq_some_iff.mp otherFound
  rw [inj_on_of_nodup_map dir.inodesNodup member otherMember sameInode]

theorem read_eq_some_iff {data : Bytes} :
    dir.read name = some data ↔ ∃ file, dir.find name = some file ∧ file.data = data := by
  simp [read]

section Create

variable {dir : SessionsDir} {name : String} {now : Int} (free : dir.find name = none)

@[simp] theorem names_create : (dir.create name now free).names = dir.names ++ [name] := by
  simp [create, names]

@[simp] theorem find_create_same :
    (dir.create name now free).find name =
      some { name := name, inode := dir.nextInode, data := [], mtime := now } := by
  apply find_eq_some_iff.mpr
  simp [create]

theorem find_create_other {other : String} (different : other ≠ name) :
    (dir.create name now free).find other = dir.find other := by
  have distinct : ¬ name = other := fun equality => different equality.symm
  simp [create, find, distinct]

end Create

@[simp] theorem names_appendTo (dir : SessionsDir) (inode : Nat) (data : Bytes) (now : Int) :
    (dir.appendTo inode data now).names = dir.names := by
  simp [appendTo, names, Function.comp_def]

theorem find_appendTo (dir : SessionsDir) (inode : Nat) (data : Bytes) (now : Int) (name : String) :
    (dir.appendTo inode data now).find name = (dir.find name).map (appendFile inode data now) := by
  simp only [appendTo, find, find?_map, Function.comp_def]
  simp

theorem read_appendTo_same (found : dir.find name = some file) (data : Bytes) (now : Int) :
    (dir.appendTo file.inode data now).read name = some (file.data ++ data) := by
  rw [read, find_appendTo, found]
  by_cases empty : data = [] <;> simp [appendFile, empty]

theorem read_appendTo_other
    (found : dir.find name = some file) (different : other ≠ name) (data : Bytes) (now : Int) :
    (dir.appendTo file.inode data now).read other = dir.read other := by
  rw [read, find_appendTo, read]
  cases otherFound : dir.find other with
  | none => rfl
  | some otherFile =>
    have inodes : otherFile.inode ≠ file.inode := fun sameInode =>
      different (name_eq_of_inode_eq otherFound found sameInode)
    simp [appendFile, inodes]

@[simp] theorem appendTo_nil (dir : SessionsDir) (inode : Nat) (now : Int) :
    dir.appendTo inode [] now = dir := by
  apply SessionsDir.ext
  · have unchanged : appendFile inode [] now = id := by
      funext file
      simp [appendFile]
    simp [appendTo, unchanged]
  · rfl

theorem appendTo_of_missing {inode : Nat} (missing : ∀ file ∈ dir.files, file.inode ≠ inode)
    (data : Bytes) (now : Int) : dir.appendTo inode data now = dir := by
  apply SessionsDir.ext
  · have unchanged : ∀ file ∈ dir.files, appendFile inode data now file = file := by
      intro file member
      simp [appendFile, missing file member]
    exact (map_congr_left unchanged).trans (map_id _)
  · rfl

@[simp] theorem files_keep (dir : SessionsDir) (kept : SessionFile → Bool) :
    (dir.keep kept).files = dir.files.filter kept := rfl

theorem mem_keep : file ∈ (dir.keep kept).files ↔ file ∈ dir.files ∧ kept file = true := by
  simp [keep]

theorem find_keep_of_kept (found : dir.find name = some file) (stays : kept file = true) :
    (dir.keep kept).find name = some file := by
  obtain ⟨member, named⟩ := find_eq_some_iff.mp found
  exact find_eq_some_iff.mpr ⟨mem_keep.mpr ⟨member, stays⟩, named⟩

end SessionsDir

inductive IoError where
  | notFound
  | invalidUtf8
  | device

/-- The calls `ProvenanceWriter` makes. -/
inductive SessionCall where
  | readDir
  | metadata (name : String)
  | readFile (name : String)
  | openAppend (name : String) (now : Int)
  | writeAll (inode : Nat) (data : Bytes) (now : Int)
  | flush

@[reducible] def SessionCall.Reply : SessionCall → Type
  | .readDir => Except IoError (List String)
  | .metadata _ => Except IoError Nat
  | .readFile _ => Except IoError Bytes
  | .openAppend _ _ => Except IoError Nat
  | .writeAll _ _ _ => Except IoError Unit
  | .flush => Except IoError Unit

/-- `OpenOptions::new().create(true).append(true).open(..)`. -/
def SessionsDir.openAppend (dir : SessionsDir) (name : String) (now : Int) : Nat × SessionsDir :=
  match found : dir.find name with
  | some file => (file.inode, dir)
  | none => (dir.nextInode, dir.create name now found)

section Calls

variable {dir : SessionsDir} {name : String}

theorem SessionsDir.openAppend_of_find {file : SessionFile} (found : dir.find name = some file)
    (now : Int) : dir.openAppend name now = (file.inode, dir) := by
  unfold SessionsDir.openAppend
  split
  · simp_all
  · simp_all

theorem SessionsDir.openAppend_of_free (free : dir.find name = none) (now : Int) :
    dir.openAppend name now = (dir.nextInode, dir.create name now free) := by
  unfold SessionsDir.openAppend
  split
  · simp_all
  · rfl

/-- The file system under the writer. `write_all` that returns an error has left some bytes
unwritten; a machine that stops may have written any number of them. Flushing a file that is not
buffered does nothing and cannot fail. -/
@[reducible] def sessionCalls : Calls SessionsDir where
  Call := SessionCall
  Reply := SessionCall.Reply
  serve call dir :=
    match call with
    | .readDir => (.ok dir.names, dir)
    | .metadata name =>
      (((dir.read name).map (·.length)).elim (.error .notFound) .ok, dir)
    | .readFile name => ((dir.read name).elim (.error .notFound) .ok, dir)
    | .openAppend name now => (.ok (dir.openAppend name now).1, (dir.openAppend name now).2)
    | .writeAll inode data now => (.ok (), dir.appendTo inode data now)
    | .flush => (.ok (), dir)
  fail call amount dir :=
    match call with
    | .readDir => (.error .device, dir)
    | .metadata _ => (.error .device, dir)
    | .readFile _ => (.error .device, dir)
    | .openAppend _ _ => (.error .device, dir)
    | .writeAll inode data now =>
      (.error .device, dir.appendTo inode (data.take (min amount (data.length - 1))) now)
    | .flush => (.ok (), dir)
  tear call amount dir :=
    match call with
    | .openAppend name now => if amount = 0 then dir else (dir.openAppend name now).2
    | .writeAll inode data now => dir.appendTo inode (data.take amount) now
    | _ => dir

end Calls

/-- Starting `prev_hash` for the first entry in the chain. -/
def genesisHash : String :=
  "0000000000000000000000000000000000000000000000000000000000000000"

def maxFileBytes : Nat := 10 * 1024 * 1024

inductive EventKind where
  | turnStart
  | toolCall
  | toolResult
  | completion
  | turnEnd
deriving DecidableEq

/-- One line of the log. The sequence number is a `u64`; it counts lines, and a log that long does not
fit any disk, so it is a natural number here. -/
structure ProvenanceEntry (Value : Type) where
  seq : Nat
  ts : String
  kind : EventKind
  turnId : String
  content : Value
  prevHash : String
  hash : String

/-- Fields used to compute the hash (excludes the `hash` field itself). -/
structure HashPayload (Value : Type) where
  seq : Nat
  ts : String
  kind : EventKind
  turnId : String
  content : Value
  prevHash : String

def ProvenanceEntry.payload {Value : Type} (entry : ProvenanceEntry Value) : HashPayload Value :=
  { seq := entry.seq, ts := entry.ts, kind := entry.kind, turnId := entry.turnId
    content := entry.content, prevHash := entry.prevHash }

/-- What the log relies on from the serialiser: reading back a written entry gives the entry, an entry
is written as one JSON object on one line, and different payloads are written differently. -/
structure SerdeJson (Value : Type) where
  /-- `serde_json::to_string` on an entry. -/
  toString : ProvenanceEntry Value → String
  /-- `serde_json::to_vec` on a payload. -/
  toVec : HashPayload Value → Bytes
  /-- `serde_json::from_str` to an entry. -/
  fromStr : String → Except String (ProvenanceEntry Value)
  fromStr_toString : ∀ entry, fromStr (toString entry) = .ok entry
  newline_not_mem : ∀ entry, '\n' ∉ (toString entry).toList
  object : ∀ entry, ∃ body, (toString entry).toList = '{' :: body ++ ['}']
  toVec_injective : Function.Injective toVec

variable {Value : Type} (serde : SerdeJson Value)

def hashInput (prevHash : String) (payload : HashPayload Value) : Bytes :=
  utf8 prevHash ++ serde.toVec payload

/-- `compute_hash`. -/
def computeHash (prevHash : String) (payload : HashPayload Value) : String :=
  Sha256.sha256Hex (hashInput serde prevHash payload)

/-- `year % 4 == 0 && (year % 100 != 0 || year % 400 == 0)`. -/
def leap (year : Nat) : Bool :=
  year % 4 == 0 && (year % 100 != 0 || year % 400 == 0)

/-- The year loop of `unix_to_utc`: the year and the days left in it. Each turn takes away at least
365 days, so `days` turns are enough. -/
def yearLoop : Nat → Nat → Nat → Nat × Nat
  | 0, days, year => (year, days)
  | fuel + 1, days, year =>
    let dy := if leap year then 366 else 365
    if days < dy then (year, days) else yearLoop fuel (days - dy) (year + 1)

/-- The month loop of `unix_to_utc`: the month and the days left in it. -/
def monthLoop (isLeap : Bool) : List Nat → Nat → Nat → Nat → Nat × Nat
  | [], _, days, month => (month, days)
  | dim :: rest, i, days, month =>
    let d := if i == 1 && isLeap then 29 else dim
    if days < d then (month, days) else monthLoop isLeap rest (i + 1) (days - d) (month + 1)

/-- Format seconds since the epoch as `YYYY-MM-DDTHH:MM:SSZ`; the day count is cut to 32 bits. -/
def unixToUtc (secs : Nat) : String :=
  let s := secs % 60
  let m := secs / 60 % 60
  let h := secs / 3600 % 24
  let days := secs / 86400 % 2 ^ 32
  let (year, days) := yearLoop days days 1970
  let (month, days) :=
    monthLoop (leap year) [31, 28, 31, 30, 31, 30, 31, 31, 30, 31, 30, 31] 0 days 1
  zeroPad 4 year ++ "-" ++ zeroPad 2 month ++ "-" ++ zeroPad 2 (days + 1) ++ "T" ++ zeroPad 2 h ++
    ":" ++ zeroPad 2 m ++ ":" ++ zeroPad 2 s ++ "Z"

/-- The two dates the code's own tests name. -/
example : unixToUtc 0 = "1970-01-01T00:00:00Z" ∧ unixToUtc 1705314181 = "2024-01-15T10:23:01Z" := by
  decide +kernel

/-- `now_utc` for a clock in nanoseconds since the epoch; a clock before the epoch reads as the
epoch. -/
def nowUtc (clock : Int) : String :=
  if 0 ≤ clock then unixToUtc (clock.toNat / 1000000000) else "1970-01-01T00:00:00Z"

/-- `format!("session-{:04}.jsonl", n)`. -/
def sessionName (n : Nat) : String :=
  "session-" ++ zeroPad 4 n ++ ".jsonl"

/-- `p.extension() == "jsonl"`: the name ends in `.jsonl` and has something before it. -/
def isJsonl (name : String) : Bool :=
  ".jsonl".toList.isSuffixOf name.toList && 6 < name.length

/-- `sorted_files`: the `.jsonl` names in the byte order of their texts. -/
def sortedFiles (names : List String) : List String :=
  (names.filter isJsonl).insertionSort (· ≤ ·)

/-- `line.trim().is_empty()`. -/
def isBlank (line : String) : Bool :=
  line.toList.all Foundation.RustText.isWhitespace

def readDir : Prog sessionCalls (Except IoError (List String)) :=
  @Prog.perform _ sessionCalls .readDir

def metadataLen (name : String) : Prog sessionCalls (Except IoError Nat) :=
  @Prog.perform _ sessionCalls (.metadata name)

def readFile (name : String) : Prog sessionCalls (Except IoError Bytes) :=
  @Prog.perform _ sessionCalls (.readFile name)

def openAppend (name : String) (now : Int) : Prog sessionCalls (Except IoError Nat) :=
  @Prog.perform _ sessionCalls (.openAppend name now)

def writeAll (inode : Nat) (data : Bytes) (now : Int) : Prog sessionCalls (Except IoError Unit) :=
  @Prog.perform _ sessionCalls (.writeAll inode data now)

def flush : Prog sessionCalls (Except IoError Unit) :=
  @Prog.perform _ sessionCalls .flush

/-- The open log: the handle of the current file, the number and the hash of the last entry, and the
size of the current file. -/
structure ProvenanceWriter where
  file : Nat
  seq : Nat
  lastHash : String
  fileBytes : Nat

/-- The line loop of `scan`: the last line that parses wins, and lines that do not parse are passed
over. A line that is not UTF-8 ends the scan with an error. -/
def lastEntry : List (Option String) → Option (ProvenanceEntry Value) →
    Except IoError (Option (ProvenanceEntry Value))
  | [], last => .ok last
  | none :: _, _ => .error .invalidUtf8
  | some line :: rest, last =>
    if isBlank line then
      lastEntry rest last
    else
      match serde.fromStr line with
      | .ok entry => lastEntry rest (some entry)
      | .error _ => lastEntry rest last

/-- Scan the directory for the current write position and last hash: only the newest file is read. -/
def ProvenanceWriter.scan : Prog sessionCalls (Except IoError (String × Nat × String × Nat)) := do
  match ← readDir with
  | .error e => return .error e
  | .ok names =>
    match (sortedFiles names).getLast? with
    | none => return .ok ("session-0001.jsonl", 0, genesisHash, 0)
    | some latest =>
      match ← metadataLen latest with
      | .error e => return .error e
      | .ok fileBytes =>
        match ← readFile latest with
        | .error e => return .error e
        | .ok bytes =>
          match lastEntry serde (readLines bytes) none with
          | .error e => return .error e
          | .ok (some e) => return .ok (latest, e.seq, e.hash, fileBytes)
          | .ok none => return .ok (latest, 0, genesisHash, fileBytes)

def ProvenanceWriter.open (now : Int) : Prog sessionCalls (Except IoError ProvenanceWriter) := do
  match ← ProvenanceWriter.scan serde with
  | .error e => return .error e
  | .ok (filePath, seq, lastHash, fileBytes) =>
    match ← openAppend filePath now with
    | .error e => return .error e
    | .ok file =>
      return .ok { file := file, seq := seq, lastHash := lastHash, fileBytes := fileBytes }

namespace ProvenanceWriter

/-- Start the next file; its number is the number of files plus one. The number is a `u32`; no
file system here has inodes for that many files, so it is a natural number. -/
def rotate (self : ProvenanceWriter) (now : Int) :
    Prog sessionCalls (Except IoError Unit × ProvenanceWriter) := do
  match ← readDir with
  | .error e => return (.error e, self)
  | .ok names =>
    let n := (sortedFiles names).length + 1
    match ← openAppend (sessionName n) now with
    | .error e => return (.error e, self)
    | .ok file => return (.ok (), { self with file := file, fileBytes := 0 })

/-- The entry `append` writes once its sequence number is taken. -/
def newEntry (self : ProvenanceWriter) (now : Int) (kind : EventKind) (turnId : String)
    (content : Value) : ProvenanceEntry Value :=
  let payload : HashPayload Value :=
    { seq := self.seq, ts := nowUtc now, kind := kind, turnId := turnId, content := content
      prevHash := self.lastHash }
  { seq := self.seq, ts := nowUtc now, kind := kind, turnId := turnId, content := content
    prevHash := self.lastHash, hash := computeHash serde self.lastHash payload }

/-- The rest of `append` once the file to write to is settled. On an error the writer keeps what was
assigned before it: the sequence number is taken before the write, the hash and the size only after
it. -/
def writeEntry (self : ProvenanceWriter) (now : Int) (kind : EventKind) (turnId : String)
    (content : Value) : Prog sessionCalls (Except IoError Unit × ProvenanceWriter) := do
  let self := { self with seq := self.seq + 1 }
  let entry := newEntry serde self now kind turnId content
  let bytes := utf8 (serde.toString entry ++ "\n")
  match ← writeAll self.file bytes now with
  | .error e => return (.error e, self)
  | .ok () =>
    match ← flush with
    | .error e => return (.error e, self)
    | .ok () =>
      return (.ok (),
        { self with fileBytes := self.fileBytes + bytes.length, lastHash := entry.hash })

def append (self : ProvenanceWriter) (now : Int) (kind : EventKind) (turnId : String)
    (content : Value) : Prog sessionCalls (Except IoError Unit × ProvenanceWriter) := do
  let (rotated, self) ←
    if maxFileBytes ≤ self.fileBytes then self.rotate now else pure (.ok (), self)
  match rotated with
  | .error e => return (.error e, self)
  | .ok () => self.writeEntry serde now kind turnId content

end ProvenanceWriter

/-- What `verify_chain` carries from line to line. -/
structure VerifyState where
  expectedPrev : String
  expectedSeq : Nat
  total : Nat

/-- The checks on one entry: its number, its link and its hash, in this order. -/
def verifyEntry (place : String) (entry : ProvenanceEntry Value) (st : VerifyState) :
    Except String VerifyState :=
  if entry.seq ≠ st.expectedSeq then
    .error (place ++ "seq mismatch: want " ++ Nat.repr st.expectedSeq ++ ", got " ++
      Nat.repr entry.seq)
  else if entry.prevHash ≠ st.expectedPrev then
    .error (place ++ "prev_hash mismatch at seq " ++ Nat.repr entry.seq)
  else
    let expectedHash := computeHash serde entry.prevHash entry.payload
    if entry.hash ≠ expectedHash then
      .error (place ++ "hash mismatch at seq " ++ Nat.repr entry.seq ++ ": stored=" ++ entry.hash ++
        ", computed=" ++ expectedHash)
    else
      .ok { expectedPrev := entry.hash, expectedSeq := st.expectedSeq + 1, total := st.total + 1 }

def verifyLine (path : String) (ln : Nat) (line : Option String) (st : VerifyState) :
    Except String VerifyState :=
  let place := path ++ ":" ++ Nat.repr (ln + 1) ++ ": "
  match line with
  | none => .error (place ++ "stream did not contain valid UTF-8")
  | some line =>
    if isBlank line then
      .ok st
    else
      match serde.fromStr line with
      | .error e => .error (place ++ "parse error: " ++ e)
      | .ok entry => verifyEntry serde place entry st

/-- The lines of one file, numbered from `ln`. -/
def verifyLines (path : String) : Nat → List (Option String) → VerifyState →
    Except String VerifyState
  | _, [], st => .ok st
  | ln, line :: rest, st => do
    let st ← verifyLine serde path ln line st
    verifyLines path (ln + 1) rest st

def verifyFiles (dirPath : String) (dir : SessionsDir) : List String → VerifyState →
    Except String VerifyState
  | [], st => .ok st
  | name :: rest, st => do
    let path := dirPath ++ "/" ++ name
    match dir.read name with
    | none => .error (path ++ ": No such file or directory (os error 2)")
    | some bytes =>
      let st ← verifyLines serde path 0 (readLines bytes) st
      verifyFiles dirPath dir rest st

/-- Walk all session files in sorted order and verify the hash chain; the number of entries, or the
first broken link. -/
def verifyChain (dirPath : String) (dir : SessionsDir) : Except String Nat :=
  let files := sortedFiles dir.names
  if files.isEmpty then
    .ok 0
  else do
    let st ← verifyFiles serde dirPath dir files
      { expectedPrev := genesisHash, expectedSeq := 1, total := 0 }
    return st.total

variable {Value : Type}

/-- The arguments of one `append`, with the clock it reads. -/
structure AppendArgs (Value : Type) where
  now : Int
  kind : EventKind
  turnId : String
  content : Value

/-- What can happen to the log: it is opened, or something is appended to it. The faults say what the
calls of the operation meet. -/
inductive LogEvent (Value : Type) where
  | openLog (now : Int) (faults : List Fault)
  | appendEntry (args : AppendArgs Value) (faults : List Fault)

/-- The directory, the writer of the running process if it has one, and the number of appends that
have returned `Ok`. -/
structure World where
  dir : SessionsDir
  writer : Option ProvenanceWriter
  appended : Nat

def World.fresh : World :=
  { dir := SessionsDir.empty, writer := none, appended := 0 }

def SessionsDir.fileCount (dir : SessionsDir) : Nat :=
  (sortedFiles dir.names).length

/-- `append` with its arguments together. -/
def ProvenanceWriter.appendWith (serde : SerdeJson Value) (writer : ProvenanceWriter)
    (args : AppendArgs Value) : Prog sessionCalls (Except IoError Unit × ProvenanceWriter) :=
  writer.append serde args.now args.kind args.turnId args.content

/-- One event. A process that crashed, or that could not open the log, has no writer; a writer whose
append returned an error stays in use. -/
def World.step (serde : SerdeJson Value) (world : World) : LogEvent Value → World
  | .openLog now faults =>
    let result := (ProvenanceWriter.open serde now).run faults world.dir
    { world with
      dir := result.store
      writer :=
        match result.outcome with
        | .returned (.ok writer) => some writer
        | _ => none }
  | .appendEntry args faults =>
    match world.writer with
    | none => world
    | some writer =>
      let result := (writer.appendWith serde args).run faults world.dir
      match result.outcome with
      | .returned (.ok (), writer) =>
        { dir := result.store, writer := some writer, appended := world.appended + 1 }
      | .returned (.error _, writer) =>
        { dir := result.store, writer := some writer, appended := world.appended }
      | .crashed => { dir := result.store, writer := none, appended := world.appended }

def World.after (serde : SerdeJson Value) (world : World) (events : List (LogEvent Value)) : World :=
  events.foldl (World.step serde) world

@[simp] theorem World.after_nil (serde : SerdeJson Value) (world : World) :
    world.after serde [] = world := rfl

@[simp] theorem World.after_cons (serde : SerdeJson Value) (world : World) (event : LogEvent Value)
    (events : List (LogEvent Value)) :
    world.after serde (event :: events) = (world.step serde event).after serde events := rfl

theorem World.after_append (serde : SerdeJson Value) (world : World)
    (first second : List (LogEvent Value)) :
    world.after serde (first ++ second) = (world.after serde first).after serde second := by
  simp [World.after]

def World.Throughout (serde : SerdeJson Value) (condition : World → LogEvent Value → Prop)
    (world : World) : List (LogEvent Value) → Prop
  | [] => True
  | event :: events =>
    condition world event ∧ (world.step serde event).Throughout serde condition events

theorem World.throughout_append {serde : SerdeJson Value}
    {condition : World → LogEvent Value → Prop} {world : World}
    {first second : List (LogEvent Value)} :
    world.Throughout serde condition (first ++ second) ↔
      world.Throughout serde condition first ∧
        (world.after serde first).Throughout serde condition second := by
  induction first generalizing world with
  | nil => simp [World.Throughout]
  | cons event events ih =>
    simp only [List.cons_append, World.Throughout, ih, World.after_cons,
      and_assoc]

structure Session (Value : Type) where
  openedAt : Int
  appends : List (AppendArgs Value)

def Session.events (session : Session Value) : List (LogEvent Value) :=
  .openLog session.openedAt [] :: session.appends.map fun args => .appendEntry args []

def sessionEvents (sessions : List (Session Value)) : List (LogEvent Value) :=
  sessions.flatMap Session.events

def appendCount (sessions : List (Session Value)) : Nat :=
  (sessions.map fun session => session.appends.length).sum

theorem appendCount_cons (session : Session Value) (sessions : List (Session Value)) :
    appendCount (session :: sessions) = session.appends.length + appendCount sessions := by
  simp [appendCount]

/-! ### The JSON of entries, as the derived serialisers have it -/

/-- `#[serde(rename_all = "snake_case")]`. -/
def EventKind.name : EventKind → String
  | .turnStart => "turn_start"
  | .toolCall => "tool_call"
  | .toolResult => "tool_result"
  | .completion => "completion"
  | .turnEnd => "turn_end"

def EventKind.ofName (name : String) : Option EventKind :=
  [EventKind.turnStart, .toolCall, .toolResult, .completion, .turnEnd].find? (·.name = name)

theorem EventKind.ofName_name (kind : EventKind) : EventKind.ofName kind.name = some kind := by
  cases kind <;> decide

def entryJson (entry : ProvenanceEntry Json) : Json :=
  .obj [("seq", .num entry.seq), ("ts", .str entry.ts), ("kind", .str entry.kind.name),
    ("turn_id", .str entry.turnId), ("content", entry.content), ("prev_hash", .str entry.prevHash),
    ("hash", .str entry.hash)]

def payloadJson (payload : HashPayload Json) : Json :=
  .obj [("seq", .num payload.seq), ("ts", .str payload.ts), ("kind", .str payload.kind.name),
    ("turn_id", .str payload.turnId), ("content", payload.content),
    ("prev_hash", .str payload.prevHash)]

def field (fields : List (String × Json)) (name : String) : Except String Json :=
  match fields.filter (·.1 = name) with
  | [] => .error ("missing field " ++ name)
  | [(_, value)] => .ok value
  | _ => .error ("duplicate field " ++ name)

def asString : Json → Except String String
  | .str text => .ok text
  | _ => .error "invalid type: expected a string"

def asUnsigned : Json → Except String Nat
  | .num (.ofNat value) => .ok value
  | _ => .error "invalid type: expected u64"

def asKind (json : Json) : Except String EventKind := do
  match EventKind.ofName (← asString json) with
  | some kind => .ok kind
  | none => .error "unknown variant"

def entryOfJson : Json → Except String (ProvenanceEntry Json)
  | .obj fields => do
    let seq ← asUnsigned (← field fields "seq")
    let ts ← asString (← field fields "ts")
    let kind ← asKind (← field fields "kind")
    let turnId ← asString (← field fields "turn_id")
    let content ← field fields "content"
    let prevHash ← asString (← field fields "prev_hash")
    let hash ← asString (← field fields "hash")
    return { seq := seq, ts := ts, kind := kind, turnId := turnId, content := content
             prevHash := prevHash, hash := hash }
  | _ => .error "invalid type: expected struct ProvenanceEntry"

theorem entryOfJson_entryJson (entry : ProvenanceEntry Json) :
    entryOfJson (entryJson entry) = .ok entry := by
  simp [entryOfJson, entryJson, field, asUnsigned, asString, asKind, EventKind.ofName_name, bind,
    Except.bind, pure, Except.pure]

theorem EventKind.name_injective : Function.Injective EventKind.name := by
  intro first second equality
  have kinds := congrArg EventKind.ofName equality
  rw [EventKind.ofName_name, EventKind.ofName_name] at kinds
  exact Option.some.inj kinds

theorem payloadJson_injective : Function.Injective payloadJson := by
  intro first second equality
  cases first
  cases second
  simp only [payloadJson, Json.obj.injEq, List.cons.injEq, Prod.mk.injEq, Json.num.injEq,
    Json.str.injEq, Int.natCast_inj, true_and, and_true] at equality
  obtain ⟨seq, ts, kind, turnId, content, prevHash⟩ := equality
  rw [seq, ts, EventKind.name_injective kind, turnId, content, prevHash]

/-- `serde_json` on provenance entries whose numbers are whole. -/
def jsonSerde : SerdeJson Json where
  toString entry := String.ofList (entryJson entry).print
  toVec payload := utf8 (String.ofList (payloadJson payload).print)
  fromStr text :=
    match Json.parse text.toList with
    | some json => entryOfJson json
    | none => .error "expected value"
  fromStr_toString entry := by
    simp [Json.parse_print, entryOfJson_entryJson]
  newline_not_mem entry := by
    simpa using Json.newline_not_mem_print (entryJson entry)
  object entry := by
    rw [String.toList_ofList]
    exact Json.print_obj_braces _
  toVec_injective := by
    intro first second equality
    exact payloadJson_injective
      (Json.print_injective (String.ofList_injective (utf8_injective equality)))

theorem length_content_le (entry : ProvenanceEntry Json) :
    entry.content.print.length ≤ (utf8 (jsonSerde.toString entry ++ "\n")).length := by
  have text : entry.content.print.length ≤ (entryJson entry).print.length := by
    simp only [entryJson, Json.print, Json.printFields, List.length_append, List.length_cons]
    omega
  have bytes := length_le_utf8 (jsonSerde.toString entry)
  have whole : (jsonSerde.toString entry).length = (entryJson entry).print.length := by
    simp [jsonSerde]
  rw [utf8_append, List.length_append]
  omega

end NuraOS.Provenance

/-! ### Retention jobs -/

namespace NuraOS.Retention

open Foundation
open NuraOS.Provenance (SessionFile SessionsDir)

/-- `fileEntry`: a regular file as a walk over a directory reports it. Times are in nanoseconds. -/
structure FileEntry where
  path : String
  size : Nat
  mod : Int
deriving DecidableEq

structure DataDir where
  sessions : SessionsDir
  logs : List FileEntry
  journal : List FileEntry
  provenance : List FileEntry

def sessionEntry (dir : String) (file : SessionFile) : FileEntry :=
  { path := dir ++ "/" ++ file.name, size := file.data.length, mod := file.mtime }

/-- `filepath.WalkDir` on the sessions directory: names in lexical order. -/
def walkSessions (dir : String) (sessions : SessionsDir) : List FileEntry :=
  (sessions.files.insertionSort fun first second => first.name ≤ second.name).map (sessionEntry dir)

/-- `sort.Slice` by `mod.Before`. It is not stable: files of one time may come in any order. -/
structure SortSlice where
  sort : List FileEntry → List FileEntry
  perm : ∀ entries, (sort entries).Perm entries
  sorted : ∀ entries, (sort entries).Pairwise fun first second => first.mod ≤ second.mod

def totalSize (entries : List FileEntry) : Int :=
  (entries.map fun entry => (entry.size : Int)).sum

/-- The removal loop: while the total is above the cap, remove the next file; a file that cannot be
removed keeps its share of the total. The bytes freed, and what was removed. -/
def trimLoop (remove : String → Bool) (maxBytes : Int) :
    List FileEntry → Int → Int → Int × List FileEntry
  | [], _, freed => (freed, [])
  | entry :: rest, total, freed =>
    if total ≤ maxBytes then
      (freed, [])
    else if remove entry.path then
      let (freed, removed) := trimLoop remove maxBytes rest (total - entry.size) (freed + entry.size)
      (freed, entry :: removed)
    else
      trimLoop remove maxBytes rest total freed

/-- Remove the oldest files until the total size is at or below `maxBytes`. -/
def trimOldestFiles (sorter : SortSlice) (remove : String → Bool) (entries : List FileEntry)
    (maxBytes : Int) : Int × List FileEntry :=
  let entries := sorter.sort entries
  trimLoop remove maxBytes entries (totalSize entries) 0

/-- `ReclaimOptions`. -/
structure ReclaimOptions where
  dataDir : String
  sessionCap : Int
  logsCap : Int

def trimIfCapped (sorter : SortSlice) (remove : String → Bool) (entries : List FileEntry)
    (cap : Int) : Int × List FileEntry :=
  if 0 < cap then trimOldestFiles sorter remove entries cap else (0, [])

/-- `Reclaim`: the bytes freed, and the partition afterwards. -/
def reclaim (sorter : SortSlice) (remove : String → Bool) (opts : ReclaimOptions) (data : DataDir) :
    Int × DataDir :=
  let sessionsPath := opts.dataDir ++ "/sessions"
  let sessions :=
    trimIfCapped sorter remove (walkSessions sessionsPath data.sessions) opts.sessionCap
  let logs := trimIfCapped sorter remove data.logs opts.logsCap
  (sessions.1 + logs.1,
    { data with
      sessions := data.sessions.keep fun file => sessionEntry sessionsPath file ∉ sessions.2
      logs := data.logs.filter (· ∉ logs.2) })

/-- What `os.Remove` answers. -/
inductive RemoveOutcome where
  | removed
  | notExist
  | failed (message : String)

/-- `DeleteResult`. -/
structure DeleteResult where
  sessionsDeleted : Nat
  journalEntriesDeleted : Nat
  provenanceRecordsDeleted : Nat
  bytesFreed : Nat
  errors : List String

/-- The start of the retention window. The window defaults to 90 days, and its length is a 64-bit
number of nanoseconds. -/
def cutoff (now retentionDays : Int) : Int :=
  let retentionDays := if retentionDays ≤ 0 then 90 else retentionDays
  now + (-retentionDays * 24 * 3600000000000).bmod (2 ^ 64)

structure Sweep where
  deleted : Nat
  bytes : Nat
  errors : List String
  gone : List FileEntry

def sweep (remove : String → RemoveOutcome) (limit : Int) : List FileEntry → Sweep
  | [] => { deleted := 0, bytes := 0, errors := [], gone := [] }
  | entry :: rest =>
    let later := sweep remove limit rest
    if entry.mod < limit then
      match remove entry.path with
      | .failed message =>
        { later with errors := ("remove " ++ entry.path ++ ": " ++ message) :: later.errors }
      | _ =>
        { deleted := later.deleted + 1
          bytes := later.bytes + entry.size
          errors := later.errors
          gone := entry :: later.gone }
    else
      later

/-- `DeleteExpired`: its result and error, and the partition afterwards. -/
def deleteExpired (remove : String → RemoveOutcome) (now : Int) (dataDir : String)
    (retentionDays : Int) (data : DataDir) : (DeleteResult × Option String) × DataDir :=
  let limit := cutoff now retentionDays
  let sessionsPath := dataDir ++ "/sessions"
  let sessions := sweep remove limit (walkSessions sessionsPath data.sessions)
  let journal := sweep remove limit data.journal
  let provenance := sweep remove limit data.provenance
  let result : DeleteResult :=
    { sessionsDeleted := sessions.deleted
      journalEntriesDeleted := journal.deleted
      provenanceRecordsDeleted := provenance.deleted
      bytesFreed := sessions.bytes + journal.bytes + provenance.bytes
      errors := sessions.errors ++ journal.errors ++ provenance.errors }
  let error :=
    if result.errors.isEmpty then none
    else some ("compliance: " ++ Nat.repr result.errors.length ++ " errors during deletion")
  ((result, error),
    { data with
      sessions := data.sessions.keep fun file => sessionEntry sessionsPath file ∉ sessions.gone
      journal := data.journal.filter (· ∉ journal.gone)
      provenance := data.provenance.filter (· ∉ provenance.gone) })

open NuraOS.Provenance

variable {Value : Type}

structure Machine where
  data : DataDir
  writer : Option ProvenanceWriter

/-- What can happen: the log is opened or appended to, or one of the jobs runs. -/
inductive MachineEvent (Value : Type) where
  | openLog (now : Int)
  | appendEntry (args : AppendArgs Value)
  | reclaim (opts : ReclaimOptions)
  | deleteExpired (now : Int) (dataDir : String) (retentionDays : Int)

def Machine.fresh (logs journal provenance : List FileEntry) : Machine :=
  { data :=
      { sessions := SessionsDir.empty, logs := logs, journal := journal, provenance := provenance }
    writer := none }

def Machine.logStep (serde : SerdeJson Value) (machine : Machine) (event : LogEvent Value) :
    Machine :=
  let world := World.step serde
    { dir := machine.data.sessions, writer := machine.writer, appended := 0 } event
  { data := { machine.data with sessions := world.dir }, writer := world.writer }

def Machine.step (serde : SerdeJson Value) (sorter : SortSlice) (machine : Machine) :
    MachineEvent Value → Machine
  | .openLog now => machine.logStep serde (.openLog now [])
  | .appendEntry args => machine.logStep serde (.appendEntry args [])
  | .reclaim opts =>
    { machine with data := (Retention.reclaim sorter (fun _ => true) opts machine.data).2 }
  | .deleteExpired now dataDir retentionDays =>
    { machine with
      data :=
        (Retention.deleteExpired (fun _ => .removed) now dataDir retentionDays machine.data).2 }

def Machine.after (serde : SerdeJson Value) (sorter : SortSlice) (machine : Machine)
    (events : List (MachineEvent Value)) : Machine :=
  events.foldl (Machine.step serde sorter) machine

def Machine.Throughout (serde : SerdeJson Value) (sorter : SortSlice)
    (condition : Machine → MachineEvent Value → Prop) (machine : Machine) :
    List (MachineEvent Value) → Prop
  | [] => True
  | event :: events =>
    condition machine event ∧
      (machine.step serde sorter event).Throughout serde sorter condition events

end NuraOS.Retention
