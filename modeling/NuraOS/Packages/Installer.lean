/-
Purpose: The package database, opening a package, `Install` and `Remove`.
Trusted boundary: gzip and tar reading, JSON decoding of the manifest, `ed25519.Verify` and what a hook
  does to the files are parameters
-/
import NuraOS.Foundation.FileTree
import NuraOS.Foundation.SortedMap
import NuraOS.Update.Operations

namespace NuraOS.Packages

section Records

open List

/-- `FileEntry`. -/
structure FileEntry where
  path : String
  sha256 : String
  mode : String
deriving DecidableEq

/-- `Manifest`. -/
structure Manifest where
  schema : Int
  name : String
  version : String
  description : String
  depends : List String
  files : List FileEntry
  installHook : String
  removeHook : String
deriving DecidableEq

/-- `SchemaVersion`. -/
def schemaVersion : Int := 1

/-- `InstallRecord`. -/
structure InstallRecord where
  name : String
  version : String
  description : String
  installedAt : String
  files : List String
  depends : List String
  removeHook : String

/-- `DB`. The map of packages is a list in which no name stands twice. -/
structure Database where
  schema : Int
  packages : List (String × InstallRecord)
  distinct : (packages.map (·.1)).Nodup

namespace Database

def empty : Database :=
  { schema := schemaVersion, packages := [], distinct := .nil }

/-- `Get`. -/
def get (db : Database) (name : String) : Option InstallRecord :=
  (db.packages.find? fun entry => entry.1 = name).map (·.2)

def others (db : Database) (name : String) : List (String × InstallRecord) :=
  db.packages.filter (·.1 ≠ name)

theorem distinct_others (db : Database) (name : String) : ((db.others name).map (·.1)).Nodup :=
  db.distinct.sublist (filter_sublist.map _)

theorem not_mem_others (db : Database) (name : String) : name ∉ (db.others name).map (·.1) := by
  intro member
  obtain ⟨entry, kept, same⟩ := mem_map.mp member
  simp [others, same] at kept

/-- `Add`. -/
def add (db : Database) (rec : InstallRecord) : Database :=
  { db with
    packages := (rec.name, rec) :: db.others rec.name
    distinct := nodup_cons.mpr ⟨db.not_mem_others rec.name, db.distinct_others rec.name⟩ }

/-- `Remove`. -/
def remove (db : Database) (name : String) : Database :=
  { db with packages := db.others name, distinct := db.distinct_others name }

/-- `Dependents`. The code ranges over a map, so the order of its result is not determined. -/
def dependents (db : Database) (name : String) : List String :=
  (db.packages.filter fun entry => name ∈ entry.2.depends).map (·.2.name)

variable {db : Database} {name : String}

theorem get_eq_some_iff {rec : InstallRecord} :
    db.get name = some rec ↔ (name, rec) ∈ db.packages :=
  Foundation.find?_entry_eq_some_iff db.distinct

@[simp] theorem get_add (db : Database) (rec : InstallRecord) (name : String) :
    (db.add rec).get name = if name = rec.name then some rec else db.get name := by
  apply Option.ext
  intro found
  rw [get_eq_some_iff]
  by_cases same : name = rec.name
  · simp [add, others, same, eq_comm]
  · rw [if_neg same, get_eq_some_iff]
    simp [add, others, same]

@[simp] theorem get_remove (db : Database) (removed name : String) :
    (db.remove removed).get name = if name = removed then none else db.get name := by
  apply Option.ext
  intro found
  rw [get_eq_some_iff]
  by_cases same : name = removed
  · subst same
    simp [remove, others]
  · rw [if_neg same, get_eq_some_iff]
    simp [remove, others, same]

end Database

end Records

open Foundation Path Sha256
open Update (File equalFold)

structure Platform where
  /-- `gzip.NewReader` and `tar.Reader`: the names and contents of the entries, or the error's text. -/
  readArchive : Bytes → Except String (List (Bytes × Bytes))
  /-- `ed25519.Verify`. -/
  ed25519Verify : (publicKey message sig : Bytes) → Bool
  /-- `json.Unmarshal` into a `Manifest`, or the error's text. -/
  unmarshalManifest : Bytes → Except String Manifest
  /-- What running a program does to the files. -/
  exec : (bin : Bytes) → (args : List Bytes) → FileTree → FileTree
  /-- The working directory. -/
  cwd : Location
  umask : Nat

inductive PackageError where
  | openFile (cause : Errno)
  | archive (text : String)
  | missingEntry (name : String)
  | signatureSize (got : Nat)
  | badSignature
  | parseManifest (text : String)
  | unsupportedSchema (got : Int)
  | missingNameOrVersion
  | badChecksum (path got want : String)
  | readDatabase (cause : Errno)
  | parseDatabase
  | unsatisfied (name dependency : String)
  | createOverlay (cause : Errno)
  | createDir (path : String) (cause : Errno)
  | write (path : String) (cause : Errno)
  | saveDatabase (cause : Errno)
  | notInstalled (name : String)
  | required (name : String) (dependents : List String)
  | save (cause : Errno)
deriving DecidableEq

/-- `strings.TrimPrefix(name, "./")`. -/
def trimDotSlash (name : Bytes) : Bytes :=
  match name with
  | 46 :: 47 :: rest => rest
  | _ => name

/-- The content under a name. An entry replaces an earlier one of the same name. -/
def content (raw : List (Bytes × Bytes)) (name : Bytes) : Option Bytes :=
  (raw.reverse.find? fun entry => trimDotSlash entry.1 = name).map (·.2)

/-- `ed25519.SignatureSize`. -/
def signatureSize : Nat := 64

/-- The loop of `OpenPackage` over the files of the manifest. -/
def checkFiles (raw : List (Bytes × Bytes)) :
    List FileEntry → Except PackageError (List (String × Bytes))
  | [] => .ok []
  | fe :: files =>
    match content raw (utf8 fe.path) with
    | none => .error (.missingEntry fe.path)
    | some data =>
      let got := sha256Hex data
      if equalFold got fe.sha256 then
        (checkFiles raw files).map ((fe.path, data) :: ·)
      else
        .error (.badChecksum fe.path got (String.ofList (fe.sha256.toList.map Char.toLower)))

/-- `OpenPackage`: the manifest, and the content of each file it lists. -/
def openPackage (platform : Platform) (pubKey archive : Bytes) :
    Except PackageError (Manifest × List (String × Bytes)) := do
  let raw ← (platform.readArchive archive).mapError .archive
  let manifestBytes ← match content raw (utf8 "manifest.json") with
    | some data => pure data
    | none => throw (.missingEntry "manifest.json")
  let sigBytes ← match content raw (utf8 "manifest.sig") with
    | some data => pure data
    | none => throw (.missingEntry "manifest.sig")
  if sigBytes.length ≠ signatureSize then
    throw (.signatureSize sigBytes.length)
  if !platform.ed25519Verify pubKey manifestBytes sigBytes then
    throw .badSignature
  let m ← (platform.unmarshalManifest manifestBytes).mapError .parseManifest
  if m.schema ≠ schemaVersion then
    throw (.unsupportedSchema m.schema)
  if m.name = "" ∨ m.version = "" then
    throw .missingNameOrVersion
  let payload ← checkFiles raw m.files
  return (m, payload)

structure Root where
  tree : FileTree
  database : Option (File Database)
  databaseTmp : Option (File Database)

inductive PackageCall where
  | readDatabase
  | mkdirAll (path : Bytes)
  | writeFile (path data : Bytes) (mode : Nat)
  | remove (path : Bytes)
  | exec (bin : Bytes) (args : List Bytes)
  | mkdirDatabase
  | writeDatabaseTmp (db : Database)
  | renameDatabase

@[reducible] def PackageCall.Reply : PackageCall → Type
  | .readDatabase => Except Errno (File Database)
  | .exec _ _ => Unit
  | _ => Except Errno Unit

namespace Root

def onTree (root : Root) : Except Errno FileTree → Except Errno Unit × Root
  | .ok tree => (.ok (), { root with tree })
  | .error e => (.error e, root)

variable (platform : Platform) (root : Root)

@[reducible] def serve : (call : PackageCall) → call.Reply × Root
  | .readDatabase =>
    match root.database with
    | none => (.error .notExist, root)
    | some file => (.ok file, root)
  | .mkdirAll path => root.onTree (root.tree.mkdirAll (resolve platform.cwd path))
  | .writeFile path data mode =>
    root.onTree
      (root.tree.writeFile (resolve platform.cwd path) data (created platform.umask mode))
  | .remove path => root.onTree (root.tree.remove (resolve platform.cwd path))
  | .exec bin args => ((), { root with tree := platform.exec bin args root.tree })
  | .mkdirDatabase => (.ok (), root)
  | .writeDatabaseTmp db => (.ok (), { root with databaseTmp := some (.whole db) })
  | .renameDatabase =>
    match root.databaseTmp with
    | none => (.error .notExist, root)
    | some file => (.ok (), { root with database := some file, databaseTmp := none })

/-- What a call leaves behind that does not get to its end. Renaming is atomic; some of the directories
may have been made, and some of a file written. -/
@[reducible] def partly (amount : Nat) : PackageCall → Root
  | .mkdirAll path => (root.onTree (root.tree.mkdirAll ((resolve platform.cwd path).take amount))).2
  | .writeFile path data mode =>
    match amount with
    | 0 => root
    | written + 1 =>
      (root.onTree (root.tree.writeFile (resolve platform.cwd path) (data.take written)
        (created platform.umask mode))).2
  | .writeDatabaseTmp _ => if amount = 0 then root else { root with databaseTmp := some .torn }
  | _ => root

end Root

@[reducible] def PackageCall.failure : (call : PackageCall) → call.Reply
  | .readDatabase => .error .device
  | .mkdirAll _ => .error .device
  | .writeFile _ _ _ => .error .device
  | .remove _ => .error .device
  | .exec _ _ => ()
  | .mkdirDatabase => .error .device
  | .writeDatabaseTmp _ => .error .device
  | .renameDatabase => .error .device

/-- The system the installer works on. A machine that stops inside a call has done all of it (amount
zero) or only a part. -/
@[reducible] def packageCalls (platform : Platform) : Calls Root where
  Call := PackageCall
  Reply := PackageCall.Reply
  serve call root := root.serve platform call
  fail call amount root := (call.failure, root.partly platform amount call)
  tear call amount root :=
    match amount with
    | 0 => (root.serve platform call).2
    | amount + 1 => root.partly platform amount call

abbrev PackageProg (platform : Platform) (α : Type) := Prog (packageCalls platform) α

def call {platform : Platform} (request : PackageCall) : PackageProg platform request.Reply :=
  @Prog.perform _ (packageCalls platform) request

section Programs

variable {platform : Platform}

def annotate {α : Type} (context : Errno → PackageError) (program : PackageProg platform (Except Errno α)) :
    PackageProg platform (Except PackageError α) :=
  program.bind fun result => .ret (result.mapError context)

/-- `LoadDB`. -/
def loadDB : PackageProg platform (Except PackageError Database) := do
  match ← call .readDatabase with
  | .error .notExist => return .ok Database.empty
  | .error cause => return .error (.readDatabase cause)
  | .ok .torn => return .error .parseDatabase
  | .ok (.whole db) => return .ok db

/-- `DB.Save`. -/
def save (db : Database) : PackageProg platform (Except Errno Unit) :=
  (call .mkdirDatabase).andThen fun _ =>
    (call (.writeDatabaseTmp db)).andThen fun _ => call .renameDatabase

/-- `unicode.IsSpace`. -/
def isSpace (c : Char) : Bool :=
  c.toNat ∈ [0x09, 0x0A, 0x0B, 0x0C, 0x0D, 0x20, 0x85, 0xA0, 0x1680, 0x2028, 0x2029, 0x202F, 0x205F,
      0x3000] ∨
    (0x2000 ≤ c.toNat ∧ c.toNat ≤ 0x200A)

/-- `strings.Fields`. -/
def fields (text : String) : List String :=
  ((text.toList.splitOnP isSpace).filter (· ≠ [])).map String.ofList

/-- `runHook`. -/
def runHook (overlay : Bytes) (hook : String) : PackageProg platform Unit :=
  match fields hook with
  | [] => return ()
  | bin :: args => call (.exec (join overlay (utf8 bin)) (args.map utf8))

def runHookIfSet (overlay : Bytes) (hook : String) : PackageProg platform Unit :=
  if hook = "" then return () else runHook overlay hook

/-- `Options`, without the path of the database file. -/
structure Options where
  overlayDir : Bytes
  pubKey : Bytes

/-- `DefaultOverlayDir`. -/
def defaultOverlayDir : Bytes := utf8 "/data/overlay"

/-- `overlayDir`. -/
def Options.overlay (opts : Options) : Bytes :=
  if opts.overlayDir = [] then defaultOverlayDir else opts.overlayDir

/-- `strconv.ParseUint(text, 8, 32)`. -/
def parseOctal (text : String) : Option Nat :=
  let digits := text.toList.map fun c => c.toNat - 48
  if text = "" ∨ ¬ text.toList.all fun c => 48 ≤ c.toNat ∧ c.toNat < 56 then none
  else
    let value := digits.foldl (fun value digit => value * 8 + digit) 0
    if value < 2 ^ 32 then some value else none

def FileEntry.fileMode (fe : FileEntry) : Nat :=
  (parseOctal fe.mode).getD 0o644

/-- What `payload[path]` gives. -/
def payloadOf (payload : List (String × Bytes)) (path : String) : Bytes :=
  ((payload.find? fun entry => entry.1 = path).map (·.2)).getD []

/-- The loop of `Install` over the files of the manifest: the paths that were written. -/
def extract (overlay : Bytes) (payload : List (String × Bytes)) :
    List FileEntry → PackageProg platform (Except PackageError (List String))
  | [] => return .ok []
  | fe :: files =>
    let dst := join overlay (utf8 fe.path)
    (annotate (.createDir fe.path) (call (.mkdirAll (dir dst)))).andThen fun _ =>
      (annotate (.write fe.path)
          (call (.writeFile dst (payloadOf payload fe.path) fe.fileMode))).andThen fun _ =>
        (extract overlay payload files).andThen fun installed =>
          .ret (.ok (fe.path :: installed))

def Manifest.record (m : Manifest) (installedAt : String) (installed : List String) : InstallRecord :=
  { name := m.name
    version := m.version
    description := m.description
    installedAt := installedAt
    files := installed
    depends := m.depends
    removeHook := m.removeHook }

/-- `Install` once the package has been opened and the database loaded. -/
def installInto (opts : Options) (installedAt : String) (m : Manifest) (payload : List (String × Bytes))
    (db : Database) : PackageProg platform (Except PackageError Manifest) :=
  match m.depends.find? fun dep => (db.get dep).isNone with
  | some dep => .ret (.error (.unsatisfied m.name dep))
  | none =>
    (annotate .createOverlay (call (.mkdirAll opts.overlay))).andThen fun _ =>
      (extract opts.overlay payload m.files).andThen fun installed =>
        (annotate .saveDatabase (save (db.add (m.record installedAt installed)))).andThen fun _ => do
          runHookIfSet opts.overlay m.installHook
          return .ok m

/-- `Install` once the package has been opened. -/
def installOpened (opts : Options) (installedAt : String) (m : Manifest)
    (payload : List (String × Bytes)) : PackageProg platform (Except PackageError Manifest) :=
  loadDB.andThen (installInto opts installedAt m payload)

/-- `Install`. The argument `package` is what reading the file gives. -/
def install (opts : Options) (installedAt : String) (package : Except Errno Bytes) :
    PackageProg platform (Except PackageError Manifest) :=
  match package with
  | .error cause => .ret (.error (.openFile cause))
  | .ok archive =>
    match openPackage platform opts.pubKey archive with
    | .error e => .ret (.error e)
    | .ok (m, payload) => installOpened opts installedAt m payload

/-- The loop of `Remove`: what cannot be removed is passed over. -/
def removeFiles (overlay : Bytes) : List String → PackageProg platform Unit
  | [] => return ()
  | path :: paths => do
    let _ ← call (.remove (join overlay (utf8 path)))
    removeFiles overlay paths

/-- `Remove` once the database has been loaded. -/
def removeFrom (opts : Options) (name : String) (db : Database) :
    PackageProg platform (Except PackageError Unit) :=
  match db.get name with
  | none => .ret (.error (.notInstalled name))
  | some rec =>
    match db.dependents name with
    | [] => do
      runHookIfSet opts.overlay rec.removeHook
      removeFiles opts.overlay rec.files
      annotate .save (save (db.remove name))
    | dependents => .ret (.error (.required name dependents))

/-- `Remove`. -/
def remove (opts : Options) (name : String) : PackageProg platform (Except PackageError Unit) :=
  loadDB.andThen (removeFrom opts name)

end Programs

inductive PackageOp where
  | install (installedAt : String) (package : Except Errno Bytes)
  | remove (name : String)

def PackageOp.program (platform : Platform) (opts : Options) :
    PackageOp → PackageProg platform (Except PackageError Unit)
  | .install installedAt package =>
    (Packages.install opts installedAt package).bind fun result => .ret (result.map fun _ => ())
  | .remove name => Packages.remove opts name

structure PackageEvent where
  op : PackageOp
  faults : List Fault

def Root.step (platform : Platform) (opts : Options) (root : Root) (event : PackageEvent) : Root :=
  ((event.op.program platform opts).run event.faults root).store

def successfulStep (platform : Platform) (opts : Options) (root : Root) (event : PackageEvent) :
    Option Root :=
  match ((event.op.program platform opts).run event.faults root).outcome with
  | .returned (.ok ()) => some (root.step platform opts event)
  | _ => none

/-- The installed packages: the database that `LoadDB` reads. -/
def Root.installed (root : Root) : Database :=
  match root.database with
  | some (.whole db) => db
  | _ => Database.empty

end NuraOS.Packages
