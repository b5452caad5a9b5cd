/-
Purpose: What the parts of the installer do, whatever their calls meet, and which places they change.
-/
import NuraOS.Packages.Installer

namespace NuraOS.Packages

open Foundation Path Prog

variable {platform : Platform} {guard : Root → Root → Prop} {root : Root}

def PackageCall.OnFiles : PackageCall → Prop
  | .mkdirAll _ | .writeFile _ _ _ | .remove _ | .exec _ _ => True
  | _ => False

def Root.SameDatabase (before after : Root) : Prop :=
  after.database = before.database ∧ after.databaseTmp = before.databaseTmp

theorem Root.onTree_sameDatabase (root : Root) (result : Except Errno FileTree) :
    root.SameDatabase (root.onTree result).2 := by
  cases result with
  | error e => exact ⟨rfl, rfl⟩
  | ok tree => exact ⟨rfl, rfl⟩

section Files

variable {request : PackageCall}

theorem Root.serve_sameDatabase (files : request.OnFiles) :
    root.SameDatabase (root.serve platform request).2 := by
  cases request with
  | mkdirAll path => exact root.onTree_sameDatabase _
  | writeFile path data mode => exact root.onTree_sameDatabase _
  | remove path => exact root.onTree_sameDatabase _
  | exec bin args => exact ⟨rfl, rfl⟩
  | readDatabase | mkdirDatabase | writeDatabaseTmp db | renameDatabase => exact files.elim

theorem Root.partly_sameDatabase (amount : Nat) (files : request.OnFiles) :
    root.SameDatabase (root.partly platform amount request) := by
  cases request with
  | mkdirAll path => exact root.onTree_sameDatabase _
  | writeFile path data mode =>
    cases amount with
    | zero => exact ⟨rfl, rfl⟩
    | succ written => exact root.onTree_sameDatabase _
  | remove path => exact ⟨rfl, rfl⟩
  | exec bin args => exact ⟨rfl, rfl⟩
  | readDatabase | mkdirDatabase | writeDatabaseTmp db | renameDatabase => exact files.elim

theorem safe_call {post : request.Reply → Root → Prop}
    (served : guard root (root.serve platform request).2 ∧
      post (root.serve platform request).1 (root.serve platform request).2)
    (failed : ∀ amount, guard root (root.partly platform amount request) ∧
      post request.failure (root.partly platform amount request)) :
    (call request : PackageProg platform _).Safe guard post root := by
  refine ⟨served, failed, fun amount => ?_⟩
  cases amount with
  | zero => exact served.1
  | succ amount => exact (failed amount).1

theorem safe_onFiles {post : request.Reply → Root → Prop} (files : request.OnFiles)
    (allows : ∀ before after : Root, before.SameDatabase after → guard before after)
    (served : post (root.serve platform request).1 (root.serve platform request).2)
    (failed : ∀ amount, post request.failure (root.partly platform amount request)) :
    (call request : PackageProg platform _).Safe guard post root :=
  safe_call ⟨allows _ _ (Root.serve_sameDatabase files), served⟩ fun amount =>
    ⟨allows _ _ (Root.partly_sameDatabase amount files), failed amount⟩

end Files

theorem safe_annotate {α : Type} {context : Errno → PackageError}
    {program : PackageProg platform (Except Errno α)} {post : Except Errno α → Root → Prop}
    (safe : program.Safe guard post root) :
    (annotate context program).Safe guard
      (fun result after => ∀ value, result = .ok value → post (.ok value) after) root := by
  apply safe.bind
  intro result after holds value same
  cases result with
  | error e => cases same
  | ok other =>
    cases same
    exact holds

theorem Root.serve_readDatabase (root : Root) :
    root.serve platform .readDatabase =
      (match root.database with | none => .error .notExist | some file => .ok file, root) := by
  rw [Root.serve]
  cases root.database <;> rfl

theorem safe_loadDB (allows : guard root root) :
    (loadDB : PackageProg platform _).Safe guard
      (fun result after => after = root ∧ ∀ db, result = .ok db → db = root.installed) root := by
  have served : (call .readDatabase : PackageProg platform _).Safe guard
      (fun reply after => after = root ∧ (reply = .error .notExist → root.database = none) ∧
        ∀ file, reply = .ok file → root.database = some file) root := by
    refine safe_call ?_ fun _ => ⟨allows, rfl, by simp, by simp⟩
    rw [root.serve_readDatabase]
    cases root.database with
    | none => exact ⟨allows, rfl, by simp, by simp⟩
    | some file => exact ⟨allows, rfl, by simp, by simp⟩
  apply served.bind
  rintro reply after ⟨rfl, missing, found⟩
  match reply with
  | .error .notExist =>
    refine ⟨rfl, fun db same => ?_⟩
    cases same
    rw [Root.installed, missing rfl]
  | .error .notDirectory | .error .isDirectory | .error .notEmpty | .error .device | .ok .torn =>
    exact ⟨rfl, fun db impossible => by cases impossible⟩
  | .ok (.whole db) =>
    refine ⟨rfl, fun other same => ?_⟩
    cases same
    rw [Root.installed, found _ rfl]

theorem loadDB_returned {faults : List Fault} {result : Except PackageError Database}
    (returned : ((loadDB : PackageProg platform _).run faults root).outcome = .returned result) :
    ∀ db, result = .ok db → db = root.installed := by
  have loaded : (loadDB : PackageProg platform _).Safe (fun _ _ => True) _ root := safe_loadDB trivial
  exact (loaded.of_returned returned).2

/-- What `Save` may do to the system: nothing, or the temporary file, or the new database. -/
structure Saves (db : Database) (before after : Root) : Prop where
  tree : after.tree = before.tree
  database : after.database = before.database ∨ after.database = some (.whole db)

theorem safe_save {db : Database} (allows : ∀ before after, Saves db before after → guard before after) :
    (save db : PackageProg platform _).Safe guard
      (fun result after => after.tree = root.tree ∧
        after.database = if result = .ok () then some (.whole db) else root.database) root := by
  have same : ∀ before, guard before before := fun before => allows _ _ ⟨rfl, .inl rfl⟩
  have made : (call .mkdirDatabase : PackageProg platform _).Safe guard (fun _ after => after = root) root :=
    safe_call ⟨same _, rfl⟩ fun _ => ⟨same _, rfl⟩
  have written : ∀ before, (call (.writeDatabaseTmp db) : PackageProg platform _).Safe guard
      (fun reply after => after.tree = before.tree ∧ after.database = before.database ∧
        (reply = .ok () → after.databaseTmp = some (.whole db))) before := by
    intro before
    refine safe_call ⟨allows _ _ ⟨rfl, .inl rfl⟩, rfl, rfl, fun _ => rfl⟩ fun amount => ?_
    cases amount <;>
      exact ⟨allows _ _ ⟨rfl, .inl rfl⟩, rfl, rfl, fun impossible => by cases impossible⟩
  have renamed : ∀ before : Root, before.databaseTmp = some (.whole db) →
      (call .renameDatabase : PackageProg platform _).Safe guard
        (fun reply after => after.tree = before.tree ∧
          after.database = if reply = .ok () then some (.whole db) else before.database) before := by
    intro before tmp
    have whole : before.serve platform .renameDatabase =
        (.ok (), { before with database := some (.whole db), databaseTmp := none }) := by
      rw [Root.serve, tmp]
    refine safe_call ?_ fun _ => ⟨same _, rfl, (if_neg (by simp)).symm⟩
    rw [whole]
    exact ⟨allows _ _ ⟨rfl, .inr rfl⟩, rfl, (if_pos rfl).symm⟩
  refine made.andThen (fun e after holds => ?_) fun _ after holds => ?_
  · exact ⟨holds ▸ rfl, (if_neg (by simp)).trans (holds ▸ rfl) |>.symm⟩
  · subst holds
    refine (written after).andThen (fun e later holds => ?_) fun _ later holds => ?_
    · exact ⟨holds.1, holds.2.1.trans (if_neg (by simp)).symm⟩
    · exact (renamed later (holds.2.2 rfl)).mono (fun _ _ allowed => allowed) fun reply last holds' =>
        ⟨holds'.1.trans holds.1, holds.2.1 ▸ holds'.2⟩

/-! ### The files -/

def IsFile (tree : FileTree) (place : Location) : Prop :=
  ∃ content mode, tree.lookup place = some (.file content mode)

def Options.target (opts : Options) (platform : Platform) (path : String) : Location :=
  resolve platform.cwd (join opts.overlay (utf8 path))

def Platform.Idle (platform : Platform) : Prop :=
  ∀ bin args tree, platform.exec bin args tree = tree

theorem isFile_mkdirAll {tree after : FileTree} {location : Location}
    (made : tree.mkdirAll location = .ok after) (place : Location) :
    IsFile after place ↔ IsFile tree place := by
  simp only [IsFile, FileTree.lookup_mkdirAll made]
  split
  · rename_i missing
    simp [missing.1]
  · rfl

theorem isFile_writeFile {tree after : FileTree} {location : Location} {content : Bytes} {mode : Nat}
    (written : tree.writeFile location content mode = .ok after) (place : Location) :
    IsFile after place ↔ IsFile tree place ∨ place = location := by
  simp only [IsFile, FileTree.lookup_writeFile written]
  split
  · rename_i same
    simp [same]
  · rename_i different
    simp [different]

theorem isFile_remove (tree : FileTree) (location place : Location) :
    IsFile (match tree.remove location with | .ok after => after | .error _ => tree) place ↔
      IsFile tree place ∧ place ≠ location := by
  cases removed : tree.remove location with
  | ok after =>
    simp only [IsFile, FileTree.lookup_remove removed]
    split
    · rename_i same
      simp [same]
    · rename_i different
      simp [different]
  | error e =>
    refine ⟨fun isFile => ⟨isFile, ?_⟩, And.left⟩
    rintro rfl
    obtain ⟨content, mode, found⟩ := isFile
    obtain ⟨after, gone⟩ := FileTree.remove_file_isOk found
    rw [gone] at removed
    cases removed

section Programs

variable {opts : Options}
  (allows : ∀ before after : Root, before.SameDatabase after → guard before after)

include allows

theorem safe_mkdirAll (path : Bytes) :
    (call (.mkdirAll path) : PackageProg platform _).Safe guard
      (fun reply after => root.SameDatabase after ∧
        (reply = .ok () → ∀ place, IsFile after.tree place ↔ IsFile root.tree place)) root := by
  have files : (PackageCall.mkdirAll path).OnFiles := trivial
  apply safe_onFiles files allows
  · refine ⟨Root.serve_sameDatabase files, fun ok place => ?_⟩
    rw [Root.serve] at ok ⊢
    cases made : root.tree.mkdirAll (resolve platform.cwd path) with
    | error e =>
      rw [made] at ok
      cases ok
    | ok tree => exact isFile_mkdirAll made place
  · exact fun amount => ⟨Root.partly_sameDatabase amount files, fun impossible => by cases impossible⟩

theorem safe_writeFile (path data : Bytes) (mode : Nat) :
    (call (.writeFile path data mode) : PackageProg platform _).Safe guard
      (fun reply after => root.SameDatabase after ∧
        (reply = .ok () → ∀ place,
          IsFile after.tree place ↔ IsFile root.tree place ∨ place = resolve platform.cwd path)) root := by
  have files : (PackageCall.writeFile path data mode).OnFiles := trivial
  apply safe_onFiles files allows
  · refine ⟨Root.serve_sameDatabase files, fun ok place => ?_⟩
    rw [Root.serve] at ok ⊢
    cases written : root.tree.writeFile (resolve platform.cwd path) data
        (created platform.umask mode) with
    | error e =>
      rw [written] at ok
      cases ok
    | ok tree => exact isFile_writeFile written place
  · exact fun amount => ⟨Root.partly_sameDatabase amount files, fun impossible => by cases impossible⟩

theorem safe_runHookIfSet (overlay : Bytes) (hook : String) :
    (runHookIfSet overlay hook : PackageProg platform _).Safe guard
      (fun _ after => root.SameDatabase after ∧ (platform.Idle → after.tree = root.tree)) root := by
  rw [runHookIfSet]
  split
  · exact ⟨⟨rfl, rfl⟩, fun _ => rfl⟩
  · rw [runHook]
    split
    · exact ⟨⟨rfl, rfl⟩, fun _ => rfl⟩
    · rename_i bin args _
      have files : (PackageCall.exec (join overlay (utf8 bin)) (args.map utf8)).OnFiles := trivial
      exact safe_onFiles files allows ⟨⟨rfl, rfl⟩, fun idle => idle _ _ _⟩
        fun amount => ⟨⟨rfl, rfl⟩, fun _ => rfl⟩

/-- When the loop of `Install` comes to its end, the files of the manifest are there as well. -/
theorem safe_extract (payload : List (String × Bytes)) (files : List FileEntry) :
    (extract opts.overlay payload files : PackageProg platform _).Safe guard
      (fun result after => ∀ installed, result = .ok installed →
        installed = files.map (·.path) ∧
        ∀ place, IsFile after.tree place ↔
          IsFile root.tree place ∨ ∃ path ∈ installed, place = opts.target platform path) root := by
  induction files generalizing root with
  | nil =>
    rintro installed ⟨⟩
    exact ⟨rfl, fun place => by simp⟩
  | cons fe files ih =>
    refine (safe_annotate (safe_mkdirAll allows _)).andThen ?_ fun _ made directories => ?_
    · exact fun e after _ installed impossible => by cases impossible
    refine (safe_annotate (safe_writeFile allows _ _ _)).andThen ?_ fun _ written file => ?_
    · exact fun e after _ installed impossible => by cases impossible
    refine ih.andThen ?_ fun rest after others => ?_
    · exact fun e after _ installed impossible => by cases impossible
    rintro installed ⟨⟩
    obtain ⟨rfl, later⟩ := others rest rfl
    refine ⟨rfl, fun place => ?_⟩
    rw [later, (file () rfl).2 rfl, (directories () rfl).2 rfl]
    simp only [List.mem_cons, exists_eq_or_imp, or_assoc]
    rfl

/-- `Install` has come to its end: everything the package depends on was there, the record is in the
database, and the files of the manifest are there as well. -/
structure Installed (platform : Platform) (opts : Options) (installedAt : String) (m : Manifest)
    (before after : Root) : Prop where
  satisfied : ∀ dep ∈ m.depends, (before.installed.get dep).isSome
  database : after.database =
    some (.whole (before.installed.add (m.record installedAt (m.files.map (·.path)))))
  files : platform.Idle → ∀ place, IsFile after.tree place ↔
    IsFile before.tree place ∨ ∃ fe ∈ m.files, place = opts.target platform fe.path

theorem safe_installOpened {installedAt : String} {m : Manifest} {payload : List (String × Bytes)}
    (saves : (∀ dep ∈ m.depends, (root.installed.get dep).isSome) → ∀ before after,
      Saves (root.installed.add (m.record installedAt (m.files.map (·.path)))) before after →
        guard before after) :
    (installOpened opts installedAt m payload : PackageProg platform _).Safe guard
      (fun result after => ∀ value, result = .ok value →
        Installed platform opts installedAt m root after) root := by
  refine (safe_loadDB (allows _ _ ⟨rfl, rfl⟩)).andThen ?_ fun db loaded same => ?_
  · exact fun e after _ value impossible => by cases impossible
  obtain ⟨rfl, same⟩ := same
  obtain rfl := same db rfl
  rw [installInto]
  split
  · exact fun value impossible => by cases impossible
  · rename_i complete
    have satisfied : ∀ dep ∈ m.depends, (loaded.installed.get dep).isSome := by
      intro dep listed
      have present := List.find?_eq_none.mp complete dep listed
      simpa [Option.isSome_iff_ne_none] using present
    refine (safe_annotate (safe_mkdirAll allows _)).andThen ?_ fun _ made directories => ?_
    · exact fun e after _ value impossible => by cases impossible
    refine (safe_extract allows payload m.files).andThen ?_ fun installed written extracted => ?_
    · exact fun e after _ value impossible => by cases impossible
    obtain ⟨rfl, files⟩ := extracted installed rfl
    refine (safe_annotate (safe_save (saves satisfied))).andThen ?_ fun _ saved record => ?_
    · exact fun e after _ value impossible => by cases impossible
    refine (safe_runHookIfSet allows _ _).bind fun _ after hook => ?_
    intro value _
    refine ⟨satisfied, hook.1.1.trans ((record () rfl).2.trans (if_pos rfl)), fun idle place => ?_⟩
    rw [hook.2 idle, (record () rfl).1, files, (directories () rfl).2 rfl]
    simp

theorem safe_removeFiles (paths : List String) :
    (removeFiles opts.overlay paths : PackageProg platform _).Safe guard (fun _ _ => True) root := by
  induction paths generalizing root with
  | nil => trivial
  | cons path paths ih =>
    have files : (PackageCall.remove (join opts.overlay (utf8 path))).OnFiles := trivial
    have removed : (call (.remove (join opts.overlay (utf8 path))) : PackageProg platform _).Safe guard
        (fun _ _ => True) root := safe_onFiles files allows trivial fun _ => trivial
    exact removed.bind fun _ _ _ => ih

/-- What `Remove` may do to the database: nothing, or take a package out that is installed and that
nothing depends on. -/
theorem safe_remove {name : String}
    (saves : (root.installed.get name).isSome → root.installed.dependents name = [] →
      ∀ before after, Saves (root.installed.remove name) before after → guard before after) :
    (remove opts name : PackageProg platform _).Safe guard
      (fun result after => result = .ok () → (root.installed.get name).isSome ∧
        root.installed.dependents name = [] ∧
        after.database = some (.whole (root.installed.remove name))) root := by
  refine (safe_loadDB (allows _ _ ⟨rfl, rfl⟩)).andThen ?_ fun db loaded same => ?_
  · exact fun e after _ impossible => by cases impossible
  obtain ⟨rfl, same⟩ := same
  obtain rfl := same db rfl
  rw [removeFrom]
  split
  · exact fun impossible => by cases impossible
  · rename_i rec found
    have present : (loaded.installed.get name).isSome := by rw [found]; rfl
    split
    · rename_i free
      refine (safe_runHookIfSet allows _ _).bind fun _ _ _ =>
        (safe_removeFiles allows _).bind fun _ _ _ => ?_
      refine (safe_annotate (safe_save (saves present free))).mono (fun _ _ allowed => allowed) ?_
      exact fun result after holds ok => ⟨present, free, (holds () ok).2.trans (if_pos rfl)⟩
    · exact fun impossible => by cases impossible

end Programs

section NoFaults

variable {opts : Options}

theorem loadDB_ends (readable : root.database ≠ some .torn) :
    Ends (loadDB : PackageProg platform _) root (.ok root.installed) root := by
  have served : Ends (call .readDatabase : PackageProg platform _) root
      (root.serve platform .readDatabase).1 (root.serve platform .readDatabase).2 := rfl
  rw [root.serve_readDatabase] at served
  refine served.bind ?_
  cases found : root.database with
  | none => rw [Root.installed, found]; rfl
  | some file =>
    cases file with
    | torn => exact absurd found readable
    | whole db => rw [Root.installed, found]; rfl

theorem runHookIfSet_ends (platform : Platform) (root : Root) (overlay : Bytes) (hook : String) :
    ∃ after, Ends (runHookIfSet overlay hook : PackageProg platform _) root () after ∧
      root.SameDatabase after ∧ (platform.Idle → after.tree = root.tree) := by
  rw [runHookIfSet]
  split
  · exact ⟨root, rfl, ⟨rfl, rfl⟩, fun _ => rfl⟩
  · rw [runHook]
    split
    · exact ⟨root, rfl, ⟨rfl, rfl⟩, fun _ => rfl⟩
    · exact ⟨_, rfl, ⟨rfl, rfl⟩, fun idle => idle _ _ _⟩

theorem removeFiles_ends (platform : Platform) (opts : Options) (root : Root) (paths : List String) :
    ∃ after, Ends (removeFiles opts.overlay paths : PackageProg platform _) root () after ∧
      root.SameDatabase after ∧
      ∀ place, IsFile after.tree place ↔
        IsFile root.tree place ∧ ∀ path ∈ paths, place ≠ opts.target platform path := by
  induction paths generalizing root with
  | nil => exact ⟨root, rfl, ⟨rfl, rfl⟩, fun place => by simp⟩
  | cons path paths ih =>
    let request : PackageCall := .remove (join opts.overlay (utf8 path))
    have first : Ends (call request : PackageProg platform _) root
        (root.serve platform request).1 (root.serve platform request).2 := rfl
    have tree : (root.serve platform request).2.tree =
        match root.tree.remove (opts.target platform path) with
        | .ok after => after
        | .error _ => root.tree := by
      show (root.onTree (root.tree.remove (opts.target platform path))).2.tree = _
      cases root.tree.remove (opts.target platform path) <;> rfl
    have same : root.SameDatabase (root.serve platform request).2 := Root.serve_sameDatabase trivial
    obtain ⟨after, rest, sameRest, files⟩ := ih (root.serve platform request).2
    refine ⟨after, first.bind rest, ⟨sameRest.1.trans same.1, sameRest.2.trans same.2⟩,
      fun place => ?_⟩
    rw [files, tree, isFile_remove, List.forall_mem_cons, and_assoc]

theorem save_ends (db : Database) :
    Ends (save db : PackageProg platform _) root (.ok ())
      { root with database := some (.whole db), databaseTmp := none } := rfl

theorem remove_ends (platform : Platform) (opts : Options) {name : String} {rec : InstallRecord}
    (readable : root.database ≠ some .torn) (found : root.installed.get name = some rec)
    (free : root.installed.dependents name = []) :
    ∃ after, Ends (remove opts name : PackageProg platform _) root (.ok ()) after ∧
      after.database = some (.whole (root.installed.remove name)) ∧
      (platform.Idle → ∀ place, IsFile after.tree place ↔
        IsFile root.tree place ∧ ∀ path ∈ rec.files, place ≠ opts.target platform path) := by
  obtain ⟨hooked, hook, -, idle⟩ := runHookIfSet_ends platform root opts.overlay rec.removeHook
  obtain ⟨emptied, loop, -, files⟩ := removeFiles_ends platform opts hooked rec.files
  let after : Root :=
    { emptied with database := some (.whole (root.installed.remove name)), databaseTmp := none }
  have saved : Ends (annotate .save (save (root.installed.remove name)) : PackageProg platform _) emptied
      (.ok ()) after := (save_ends _).bind rfl
  refine ⟨after, (loadDB_ends readable).bind ?_, rfl, fun still place => ?_⟩
  · have program : (removeFrom opts name root.installed : PackageProg platform _) =
        (runHookIfSet opts.overlay rec.removeHook).bind fun _ =>
          (removeFiles opts.overlay rec.files).bind fun _ =>
            annotate .save (save (root.installed.remove name)) := by
      rw [removeFrom, found]
      rw [free]
      rfl
    show Ends (removeFrom opts name root.installed) root _ _
    rw [program]
    exact hook.bind (loop.bind saved)
  · show IsFile emptied.tree place ↔ _
    rw [files, idle still]

end NoFaults

/-- A platform on which the archive `[i]` is a package with the manifest of that index, validly signed,
whose files are all empty. Hooks do nothing. -/
def shelf (manifests : List Manifest) : Platform where
  readArchive archive :=
    .ok ([(utf8 "manifest.json", archive), (utf8 "manifest.sig", List.replicate 64 0)] ++
      ((manifests[(archive.headD 0).toNat]?.map (·.files)).getD []).map fun fe => (utf8 fe.path, []))
  ed25519Verify _ _ _ := true
  unmarshalManifest archive :=
    match manifests[(archive.headD 0).toNat]? with
    | some m => .ok m
    | none => .error "unexpected end of JSON input"
  exec _ _ tree := tree
  cwd := []
  umask := 0o022

def emptyDigest : String := "e3b0c44298fc1c149afbf4c8996fb92427ae41e4649b934ca495991b7852b855"

def plainManifest (name : String) (depends paths : List String) : Manifest :=
  { schema := 1
    name := name
    version := "1.0.0"
    description := ""
    depends := depends
    files := paths.map fun path => { path := path, sha256 := emptyDigest, mode := "0644" }
    installHook := ""
    removeHook := "" }

def bareRoot : Root :=
  { tree := FileTree.bare, database := none, databaseTmp := none }

def defaultOptions : Options :=
  { overlayDir := [], pubKey := [] }

open List

def Options.place (opts : Options) (platform : Platform) : Location :=
  resolve platform.cwd opts.overlay

/-- A call that writes or removes nothing outside a directory. Directories are made in it or on the way to
it. -/
def Within (platform : Platform) (place : Location) : PackageCall → Prop
  | .writeFile path _ _ => place <+: resolve platform.cwd path
  | .remove path => place <+: resolve platform.cwd path
  | .mkdirAll path =>
    place <+: resolve platform.cwd path ∨ resolve platform.cwd path <+: place
  | _ => True

instance (platform : Platform) (place : Location) : DecidablePred (Within platform place)
  | .writeFile path _ _ => inferInstanceAs (Decidable (place <+: resolve platform.cwd path))
  | .remove path => inferInstanceAs (Decidable (place <+: resolve platform.cwd path))
  | .mkdirAll path =>
    inferInstanceAs
      (Decidable (place <+: resolve platform.cwd path ∨ resolve platform.cwd path <+: place))
  | .readDatabase => .isTrue trivial
  | .exec _ _ => .isTrue trivial
  | .mkdirDatabase => .isTrue trivial
  | .writeDatabaseTmp _ => .isTrue trivial
  | .renameDatabase => .isTrue trivial

/-- The paths a call of the package manager works on: those of the manifest, when the package can be
opened, or those of the record. -/
def PackageOp.paths (platform : Platform) (opts : Options) (root : Root) : PackageOp → List String
  | .install _ (.ok archive) =>
    match openPackage platform opts.pubKey archive with
    | .ok (m, _) => m.files.map (·.path)
    | .error _ => []
  | .install _ (.error _) => []
  | .remove name => ((root.installed.get name).map (·.files)).getD []

section Targets

variable {platform : Platform} {opts : Options}

theorem Options.overlay_ne_nil (opts : Options) : opts.overlay ≠ [] := by
  rw [Options.overlay]
  split
  · decide +kernel
  · assumption

theorem place_prefix_iff (path : Bytes) :
    opts.place platform <+: resolve platform.cwd (join opts.overlay path) ↔
      Inward (opts.place platform) path := by
  rw [resolve_join _ opts.overlay_ne_nil, ← prefix_walk_iff]
  rfl

theorem dir_within {path : Bytes}
    (inside : opts.place platform <+: resolve platform.cwd (join opts.overlay path)) :
    opts.place platform <+: resolve platform.cwd (dir (join opts.overlay path)) ∨
      resolve platform.cwd (dir (join opts.overlay path)) <+: opts.place platform := by
  have joined : join opts.overlay path = clean (opts.overlay ++ slash :: path) :=
    if_neg opts.overlay_ne_nil
  rw [joined] at inside ⊢
  rw [resolve_clean] at inside
  rcases resolve_dir_clean platform.cwd (opts.overlay ++ slash :: path) with parent | below
  · rw [parent]
    rcases eq_nil_or_concat (resolve platform.cwd (opts.overlay ++ slash :: path)) with
      root | ⟨front, last, split⟩
    · rw [root] at inside ⊢
      exact .inl inside
    · rw [split, concat_eq_append] at inside ⊢
      rw [dropLast_concat]
      rcases List.prefix_concat_iff.mp inside with whole | inFront
      · exact .inr (whole ▸ List.prefix_append front [last])
      · exact .inl inFront
  · exact .inl (inside.trans below)

end Targets

section Calls

variable {platform : Platform} {opts : Options}

variable {allowed : PackageCall → Prop}

theorem only_call {request : PackageCall} (holds : allowed request) :
    (call request : PackageProg platform _).Only allowed :=
  ⟨holds, fun _ => trivial⟩

theorem only_annotate {α : Type} {context : Errno → PackageError}
    {program : PackageProg platform (Except Errno α)} (only : program.Only allowed) :
    (annotate context program).Only allowed :=
  only.bind fun _ => trivial

theorem only_loadDB (place : Location) :
    (loadDB : PackageProg platform _).Only (Within platform place) := by
  have read : (call .readDatabase : PackageProg platform _).Only (Within platform place) :=
    only_call trivial
  refine read.bind fun reply => ?_
  match reply with
  | .error .notExist | .error .notDirectory | .error .isDirectory | .error .notEmpty
  | .error .device | .ok .torn | .ok (.whole _) => trivial

theorem only_save (place : Location) (db : Database) :
    (save db : PackageProg platform _).Only (Within platform place) :=
  (only_call trivial).andThen fun _ => (only_call trivial).andThen fun _ => only_call trivial

theorem only_runHookIfSet (place : Location) (overlay : Bytes) (hook : String) :
    (runHookIfSet overlay hook : PackageProg platform _).Only (Within platform place) := by
  rw [runHookIfSet]
  split
  · trivial
  · rw [runHook]
    split
    · trivial
    · exact only_call trivial

theorem only_extract (payload : List (String × Bytes)) {files : List FileEntry}
    (inward : ∀ fe ∈ files, Inward (opts.place platform) (utf8 fe.path)) :
    (extract opts.overlay payload files : PackageProg platform _).Only
      (Within platform (opts.place platform)) := by
  induction files with
  | nil => trivial
  | cons fe files ih =>
    obtain ⟨first, rest⟩ := forall_mem_cons.mp inward
    have inside : opts.place platform <+: resolve platform.cwd (join opts.overlay (utf8 fe.path)) :=
      (place_prefix_iff (utf8 fe.path)).mpr first
    exact (only_annotate (only_call (dir_within inside))).andThen fun _ =>
      (only_annotate (only_call inside)).andThen fun _ =>
        (ih rest).andThen fun _ => trivial

theorem only_installOpened (installedAt : String) {m : Manifest} (payload : List (String × Bytes))
    (inward : ∀ fe ∈ m.files, Inward (opts.place platform) (utf8 fe.path)) :
    (installOpened opts installedAt m payload : PackageProg platform _).Only
      (Within platform (opts.place platform)) := by
  refine (only_loadDB _).andThen fun db => ?_
  rw [installInto]
  split
  · trivial
  · exact (only_annotate (only_call (.inl List.prefix_rfl))).andThen fun _ =>
      (only_extract payload inward).andThen fun installed =>
        (only_annotate (only_save _ _)).andThen fun _ =>
          (only_runHookIfSet _ _ _).bind fun _ => trivial

theorem only_removeFiles {paths : List String}
    (inward : ∀ path ∈ paths, Inward (opts.place platform) (utf8 path)) :
    (removeFiles opts.overlay paths : PackageProg platform _).Only
      (Within platform (opts.place platform)) := by
  induction paths with
  | nil => trivial
  | cons path paths ih =>
    obtain ⟨first, rest⟩ := forall_mem_cons.mp inward
    exact (only_call ((place_prefix_iff _).mpr first)).bind fun _ => ih rest

theorem only_removeFrom (db : Database) {name : String}
    (inward : ∀ rec, db.get name = some rec → ∀ path ∈ rec.files,
      Inward (opts.place platform) (utf8 path)) :
    (removeFrom opts name db : PackageProg platform _).Only (Within platform (opts.place platform)) := by
  rw [removeFrom]
  split
  · trivial
  · rename_i rec found
    split
    · exact (only_runHookIfSet _ _ _).bind fun _ =>
        (only_removeFiles (inward rec found)).bind fun _ => only_annotate (only_save _ _)
    · trivial

end Calls

section Returned

variable {platform : Platform} {opts : Options} {faults : List Fault} {root : Root}

theorem mem_requests_call (request : PackageCall) :
    request ∈ (call request : PackageProg platform _).requests faults root := by
  rw [call, Prog.perform, requests]
  exact mem_cons_self

variable {payload : List (String × Bytes)} {fe : FileEntry} {value : Unit} {path : String}

/-- When the loop of `Install` comes to its end, it has written every file of the manifest. -/
theorem extract_requests {files : List FileEntry}
    {installed : List String}
    (returned : ((extract opts.overlay payload files : PackageProg platform _).run faults root).outcome =
      .returned (.ok installed)) (listed : fe ∈ files) :
    .writeFile (join opts.overlay (utf8 fe.path)) (payloadOf payload fe.path) fe.fileMode ∈
      (extract opts.overlay payload files : PackageProg platform _).requests faults root := by
  induction files generalizing faults root installed with
  | nil => exact absurd listed not_mem_nil
  | cons first files ih =>
    obtain ⟨_, -, runs, made⟩ := andThen_returned returned
    rw [extract, runs] at returned
    rw [extract, made]
    obtain ⟨_, -, runs, made⟩ := andThen_returned returned
    rw [runs] at returned
    rw [made]
    obtain ⟨_, rest, -, made⟩ := andThen_returned returned
    rw [made]
    apply mem_append_right
    rcases mem_cons.mp listed with rfl | later
    · rw [annotate, requests_bind]
      exact mem_append_left _ (mem_append_left _ (mem_requests_call _))
    · exact mem_append_right _ (mem_append_left _ (ih rest later))

/-- When the loop of `Remove` comes to its end, it has tried every file of the record. -/
theorem removeFiles_requests {paths : List String}
    (returned : ((removeFiles opts.overlay paths : PackageProg platform _).run faults root).outcome =
      .returned value) (listed : path ∈ paths) :
    .remove (join opts.overlay (utf8 path)) ∈
      (removeFiles opts.overlay paths : PackageProg platform _).requests faults root := by
  induction paths generalizing faults root with
  | nil => exact absurd listed not_mem_nil
  | cons first paths ih =>
    obtain ⟨_, -, runs, made⟩ := bind_returned returned
    rw [removeFiles, bind_eq, runs] at returned
    rw [removeFiles, bind_eq, made]
    rcases mem_cons.mp listed with rfl | later
    · exact mem_append_left _ (mem_requests_call _)
    · exact mem_append_right _ (ih returned later)

theorem installOpened_requests {installedAt : String} {m result : Manifest}
    (returned : ((installOpened opts installedAt m payload : PackageProg platform _).run
      faults root).outcome = .returned (.ok result)) (listed : fe ∈ m.files) :
    .writeFile (join opts.overlay (utf8 fe.path)) (payloadOf payload fe.path) fe.fileMode ∈
      (installOpened opts installedAt m payload : PackageProg platform _).requests faults root := by
  obtain ⟨db, -, runs, made⟩ := andThen_returned returned
  rw [installOpened, runs] at returned
  rw [installOpened, made]
  apply mem_append_right
  rw [installInto] at returned ⊢
  split at returned
  · cases returned
  · obtain ⟨_, -, runs, made⟩ := andThen_returned returned
    rw [runs] at returned
    rw [made]
    obtain ⟨_, extracted, -, made⟩ := andThen_returned returned
    rw [made]
    exact mem_append_right _ (mem_append_left _ (extract_requests extracted listed))

theorem removeFrom_requests {name : String} {db : Database} {rec : InstallRecord}
    (found : db.get name = some rec)
    (returned : ((removeFrom opts name db : PackageProg platform _).run faults root).outcome =
      .returned (.ok value)) (listed : path ∈ rec.files) :
    .remove (join opts.overlay (utf8 path)) ∈
      (removeFrom opts name db : PackageProg platform _).requests faults root := by
  rw [removeFrom, found] at returned ⊢
  dsimp only at returned ⊢
  split at returned
  · obtain ⟨_, -, runs, made⟩ := bind_returned returned
    rw [bind_eq, runs] at returned
    rw [bind_eq, made]
    obtain ⟨_, ended, -, made⟩ := bind_returned returned
    rw [bind_eq, made]
    exact mem_append_right _ (mem_append_left _ (removeFiles_requests ended listed))
  · cases returned

end Returned

/-! ### Staying in the overlay directory -/

def Contained (platform : Platform) (opts : Options) (root : Root) (op : PackageOp)
    (faults : List Fault) : Prop :=
  ∀ call ∈ (op.program platform opts).requests faults root, Within platform (opts.place platform) call

instance (platform : Platform) (opts : Options) (root : Root) (op : PackageOp) (faults : List Fault) :
    Decidable (Contained platform opts root op faults) :=
  inferInstanceAs (Decidable (∀ call ∈ (op.program platform opts).requests faults root,
    Within platform (opts.place platform) call))

def PackageOp.Inward (platform : Platform) (opts : Options) (root : Root) (op : PackageOp) : Prop :=
  ∀ path ∈ op.paths platform opts root, Path.Inward (opts.place platform) (utf8 path)

instance (platform : Platform) (opts : Options) (root : Root) (op : PackageOp) :
    Decidable (op.Inward platform opts root) :=
  inferInstanceAs (Decidable (∀ path ∈ op.paths platform opts root, Path.Inward _ (utf8 path)))

section Main

variable {platform : Platform} {opts : Options} {root : Root} {op : PackageOp} {faults : List Fault}

theorem install_program_requests (installedAt : String) (package : Except Errno Bytes) :
    ((PackageOp.install installedAt package).program platform opts).requests faults root =
      (install opts installedAt package : PackageProg platform _).requests faults root := by
  rw [PackageOp.program, requests_bind]
  split <;> simp [requests]

theorem contained_of_inward (inward : op.Inward platform opts root) :
    Contained platform opts root op faults := by
  intro request made
  cases op with
  | install installedAt package =>
    rw [install_program_requests] at made
    cases package with
    | error cause => exact absurd made not_mem_nil
    | ok archive =>
      rw [install] at made
      simp only [PackageOp.Inward, PackageOp.paths] at inward
      split at made
      · exact absurd made not_mem_nil
      · rename_i m payload opened
        rw [opened] at inward
        refine (only_installOpened installedAt payload fun fe listed => ?_).of_mem_requests made
        exact inward _ (mem_map_of_mem listed)
  | remove name =>
    rw [PackageOp.program, remove, andThen, requests_bind] at made
    rcases mem_append.mp made with loading | made
    · exact (only_loadDB _).of_mem_requests loading
    · split at made
      · rename_i result returned
        have same := loadDB_returned returned
        split at made
        · exact absurd made not_mem_nil
        · rename_i db
          refine (only_removeFrom db fun rec found path listed => ?_).of_mem_requests made
          rw [same db rfl] at found
          refine inward path ?_
          rw [PackageOp.paths, found]
          exact listed
      · exact absurd made not_mem_nil

theorem inward_of_contained
    (returned : ((op.program platform opts).run faults root).outcome = .returned (.ok ()))
    (contained : Contained platform opts root op faults) : op.Inward platform opts root := by
  intro path listed
  rw [← place_prefix_iff]
  cases op with
  | install installedAt package =>
    cases package with
    | error cause => exact absurd listed not_mem_nil
    | ok archive =>
      obtain ⟨result, ended, runs, -⟩ := bind_returned returned
      rw [PackageOp.program, runs] at returned
      cases result with
      | error e => cases returned
      | ok result =>
        simp only [Contained, install_program_requests] at contained
        rw [install] at ended contained
        rw [PackageOp.paths] at listed
        split at ended
        · cases ended
        · rename_i m payload opened
          rw [opened] at listed contained
          obtain ⟨fe, member, rfl⟩ := mem_map.mp listed
          exact contained _ (installOpened_requests ended member)
  | remove name =>
    obtain ⟨db, loading, runs, made⟩ := andThen_returned returned
    rw [PackageOp.program, remove, runs] at returned
    rw [PackageOp.paths, ← loadDB_returned loading db rfl] at listed
    cases found : db.get name with
    | none =>
      rw [found] at listed
      exact absurd listed not_mem_nil
    | some rec =>
      rw [found] at listed
      have tried : .remove (join opts.overlay (utf8 path)) ∈
          ((PackageOp.remove name).program platform opts).requests faults root := by
        rw [PackageOp.program, remove, made]
        exact mem_append_right _ (removeFrom_requests found returned listed)
      exact contained _ tried

end Main

/-- When every path of the package, or of the record, is inward, `Install` and `Remove` stay in the overlay
directory, whatever their calls meet; and when they return without an error, they stay in it only then. -/
theorem package_calls_contained_iff (platform : Platform) (opts : Options) (root : Root) (op : PackageOp)
    (faults : List Fault) :
    (op.Inward platform opts root → Contained platform opts root op faults) ∧
      (((op.program platform opts).run faults root).outcome = .returned (.ok ()) →
        (Contained platform opts root op faults ↔ op.Inward platform opts root)) :=
  ⟨contained_of_inward, fun returned => ⟨inward_of_contained returned, contained_of_inward⟩⟩

def installFirst : PackageOp :=
  .install "2025-03-01T12:00:00Z" (.ok [0])

/-- The package `tool` has one file, in a directory of the overlay. -/
def plainPackage : Platform :=
  shelf [plainManifest "tool" [] ["sbin/tool"]]

theorem plain_package_contained :
    installFirst.Inward plainPackage defaultOptions bareRoot ∧
      Contained plainPackage defaultOptions bareRoot installFirst [] :=
  have inward : installFirst.Inward plainPackage defaultOptions bareRoot := by decide +kernel
  ⟨inward, (package_calls_contained_iff plainPackage defaultOptions bareRoot installFirst []).1 inward⟩

/-- The package `tool` names a file that lies above the overlay directory: `/sbin/init`. -/
def climbingPackage : Platform :=
  shelf [plainManifest "tool" [] ["../../sbin/init"]]

theorem climbing_package_escapes :
    ((installFirst.program climbingPackage defaultOptions).run [] bareRoot).outcome = .returned (.ok ()) ∧
      ¬ Contained climbingPackage defaultOptions bareRoot installFirst [] := by
  decide +kernel

end NuraOS.Packages
