/-
Purpose: Which files the overlay holds after calls of the package manager: those its database lists.
-/
import NuraOS.Foundation.Machine
import NuraOS.Proofs.PackageContainment

namespace NuraOS.Packages

open Foundation Prog List

/-- The manifest of the package that is to be installed, when it can be opened. -/
def PackageOp.manifest (platform : Platform) (opts : Options) : PackageOp → Option Manifest
  | .install _ (.ok archive) =>
    match openPackage platform opts.pubKey archive with
    | .ok (m, _) => some m
    | .error _ => none
  | _ => none

def Root.Fresh (root : Root) : Prop :=
  root.database = none

def installIndex (index : UInt8) : PackageEvent :=
  { op := .install "2025-03-01T12:00:00Z" (.ok [index]), faults := [] }

theorem removed_free {platform : Platform} {opts : Options} {root next : Root} {name : String}
    {faults : List Fault}
    (step : successfulStep platform opts root { op := .remove name, faults } = some next) :
    (root.installed.get name).isSome ∧ root.installed.dependents name = [] := by
  rw [successfulStep] at step
  split at step
  · rename_i returned
    have safe : (remove opts name : PackageProg platform _).Safe (fun _ _ => True) _ root :=
      safe_remove (fun _ _ _ => trivial) fun _ _ _ _ _ => trivial
    obtain ⟨present, free, -⟩ := safe.of_returned returned rfl
    exact ⟨present, free⟩
  · cases step

open Path FileTree

/-- A relative path without `.`, `..` and empty elements. -/
def CleanRelative (path : String) : Prop :=
  ∀ element ∈ elements (utf8 path), Proper element

instance (path : String) : Decidable (CleanRelative path) :=
  inferInstanceAs (Decidable (∀ element ∈ elements (utf8 path), Proper element))

def Listed (db : Database) (place : Location) : Prop :=
  ∃ name rec, db.get name = some rec ∧ ∃ path ∈ rec.files, elements (utf8 path) = place

def Owned (platform : Platform) (opts : Options) (root : Root) : Prop :=
  ∀ place, IsFile root.tree (opts.place platform ++ place) ↔ Listed root.installed place

def ListedByOther (db : Database) (name path : String) : Prop :=
  ∃ other rec, other ≠ name ∧ db.get other = some rec ∧ path ∈ rec.files

/-- Each file of the old version is one of the new version or of another package; a package that is removed
shares no file with another one, and removing its files does not fail. -/
def Reconciled (platform : Platform) (opts : Options) (root : Root) (event : PackageEvent) : Prop :=
  match event.op with
  | .install _ _ =>
    ∀ m, event.op.manifest platform opts = some m → ∀ rec, root.installed.get m.name = some rec →
      ∀ path ∈ rec.files,
        (∃ fe ∈ m.files, fe.path = path) ∨ ListedByOther root.installed m.name path
  | .remove name =>
    event.faults = [] ∧
      ∀ rec, root.installed.get name = some rec → ∀ path ∈ rec.files,
        ¬ ListedByOther root.installed name path

def CleanPackages (platform : Platform) (opts : Options) (events : List PackageEvent) : Prop :=
  ∀ event ∈ events, ∀ m, event.op.manifest platform opts = some m →
    ∀ fe ∈ m.files, CleanRelative fe.path

section Places

variable {platform : Platform} {opts : Options}

theorem elements_injective {first second : String}
    (same : elements (utf8 first) = elements (utf8 second)) : first = second := by
  have texts := congrArg ([slash].intercalate ·) same
  simp only [elements, intercalate_splitOn] at texts
  exact utf8_injective texts

variable {path : String}

theorem target_of_clean (clean : CleanRelative path) :
    opts.target platform path = opts.place platform ++ elements (utf8 path) := by
  rw [Options.target, resolve_join _ opts.overlay_ne_nil]
  exact walk_proper _ clean

theorem place_eq_target_iff (clean : CleanRelative path) (place : Location) :
    opts.place platform ++ place = opts.target platform path ↔ elements (utf8 path) = place := by
  rw [target_of_clean clean, append_cancel_left_eq]
  exact eq_comm

theorem listed_iff (db : Database) (place : Location) :
    Listed db place ↔
      place ∈ db.packages.flatMap fun entry => entry.2.files.map fun path => elements (utf8 path) := by
  simp only [Listed, mem_flatMap, mem_map, Database.get_eq_some_iff]
  constructor
  · rintro ⟨name, rec, member, path, listed, same⟩
    exact ⟨(name, rec), member, path, listed, same⟩
  · rintro ⟨⟨name, rec⟩, member, path, listed, same⟩
    exact ⟨name, rec, member, path, listed, same⟩

instance (db : Database) (place : Location) : Decidable (Listed db place) :=
  decidable_of_iff _ (listed_iff db place).symm

theorem listedByOther_iff (db : Database) (name path : String) :
    ListedByOther db name path ↔ ∃ entry ∈ db.packages, entry.1 ≠ name ∧ path ∈ entry.2.files := by
  simp only [ListedByOther, Database.get_eq_some_iff]
  constructor
  · rintro ⟨other, rec, different, member, listed⟩
    exact ⟨(other, rec), member, different, listed⟩
  · rintro ⟨⟨other, rec⟩, member, different, listed⟩
    exact ⟨other, rec, different, member, listed⟩

instance (db : Database) (name path : String) : Decidable (ListedByOther db name path) :=
  decidable_of_iff _ (listedByOther_iff db name path).symm

instance (platform : Platform) (opts : Options) (root : Root) :
    DecidablePred (Reconciled platform opts root)
  | { op := .install installedAt package, .. } =>
    inferInstanceAs (Decidable (∀ m ∈ (PackageOp.install installedAt package).manifest platform opts,
      ∀ rec ∈ root.installed.get m.name, ∀ path ∈ rec.files,
        (∃ fe ∈ m.files, fe.path = path) ∨ ListedByOther root.installed m.name path))
  | { op := .remove name, faults } =>
    inferInstanceAs (Decidable (faults = [] ∧ ∀ rec ∈ root.installed.get name,
      ∀ path ∈ rec.files, ¬ ListedByOther root.installed name path))

instance (platform : Platform) (opts : Options) (events : List PackageEvent) :
    Decidable (CleanPackages platform opts events) :=
  inferInstanceAs (Decidable (∀ event ∈ events, ∀ m ∈ event.op.manifest platform opts,
    ∀ fe ∈ m.files, CleanRelative fe.path))

end Places

/-! ### One call -/

section Step

variable {platform : Platform} {opts : Options} {root next : Root}

/-- What is kept along a run: the database can be read, the recorded paths are clean, and the files of the
overlay are those the packages list. -/
structure OwnedCleanly (platform : Platform) (opts : Options) (root : Root) : Prop where
  readable : root.database ≠ some .torn
  clean : ∀ name rec, root.installed.get name = some rec → ∀ path ∈ rec.files, CleanRelative path
  owned : Owned platform opts root

variable {event : PackageEvent} {installedAt : String} {package : Except Errno Bytes}
  {db : Database} {place : Location}

theorem successfulStep_eq_some (step : successfulStep platform opts root event = some next) :
    ((event.op.program platform opts).run event.faults root).outcome = .returned (.ok ()) ∧
      next = ((event.op.program platform opts).run event.faults root).store := by
  rw [successfulStep] at step
  split at step
  · rename_i returned
    cases step
    exact ⟨returned, rfl⟩
  · cases step

/-- A successful call of `Install` has come to its end with the manifest of the package. -/
theorem installed_of_successfulStep
    {faults : List Fault}
    (step : successfulStep platform opts root { op := .install installedAt package, faults } = some next) :
    ∃ m, (PackageOp.install installedAt package).manifest platform opts = some m ∧
      Installed platform opts installedAt m root next := by
  obtain ⟨returned, store⟩ := successfulStep_eq_some step
  obtain ⟨result, ended, runs, -⟩ := bind_returned returned
  rw [PackageOp.program, runs] at returned store
  cases result with
  | error e => cases returned
  | ok result =>
    cases package with
    | error cause => cases ended
    | ok archive =>
      rw [install] at ended store
      rw [PackageOp.manifest]
      split at ended
      · cases ended
      · rename_i m payload opened
        rw [opened] at store ⊢
        have safe : (installOpened opts installedAt m payload : PackageProg platform _).Safe
            (fun _ _ => True) _ root :=
          safe_installOpened (fun _ _ _ => trivial) fun _ _ _ _ => trivial
        exact ⟨m, rfl, store ▸ safe.of_returned ended result rfl⟩

theorem listed_add_iff {rec : InstallRecord} :
    Listed (db.add rec) place ↔
      (∃ path ∈ rec.files, elements (utf8 path) = place) ∨
        ∃ other old, other ≠ rec.name ∧ db.get other = some old ∧
          ∃ path ∈ old.files, elements (utf8 path) = place := by
  simp only [Listed, Database.get_add]
  constructor
  · rintro ⟨name, found, get, listed⟩
    split at get
    · cases get
      exact .inl listed
    · exact .inr ⟨name, found, ‹_›, get, listed⟩
  · rintro (listed | ⟨other, old, different, get, listed⟩)
    · exact ⟨rec.name, rec, if_pos rfl, listed⟩
    · exact ⟨other, old, by rw [if_neg different, get], listed⟩

theorem listed_remove_iff {removed : String} :
    Listed (db.remove removed) place ↔
      ∃ other old, other ≠ removed ∧ db.get other = some old ∧
        ∃ path ∈ old.files, elements (utf8 path) = place := by
  simp only [Listed, Database.get_remove]
  constructor
  · rintro ⟨name, found, get, listed⟩
    split at get
    · cases get
    · exact ⟨name, found, ‹_›, get, listed⟩
  · rintro ⟨other, old, different, get, listed⟩
    exact ⟨other, old, by rw [if_neg different, get], listed⟩

theorem owned_install (idle : platform.Idle) (op : event.op = .install installedAt package)
    (holds : OwnedCleanly platform opts root) (reconciled : Reconciled platform opts root event)
    (clean : ∀ m, event.op.manifest platform opts = some m → ∀ fe ∈ m.files, CleanRelative fe.path)
    (step : successfulStep platform opts root event = some next) :
    OwnedCleanly platform opts next := by
  obtain ⟨_, faults⟩ := event
  subst op
  obtain ⟨m, opened, done⟩ := installed_of_successfulStep step
  have cleanFiles := clean m opened
  have installed : next.installed =
      root.installed.add (m.record installedAt (m.files.map (·.path))) := by
    rw [Root.installed, done.database]
  refine ⟨by rw [done.database]; simp, fun name rec found path listed => ?_, fun place => ?_⟩
  · rw [installed, Database.get_add] at found
    split at found
    · cases found
      obtain ⟨fe, member, rfl⟩ := mem_map.mp listed
      exact cleanFiles fe member
    · exact holds.clean name rec found path listed
  · have written : (∃ fe ∈ m.files, opts.place platform ++ place = opts.target platform fe.path) ↔
        ∃ path ∈ m.files.map (·.path), elements (utf8 path) = place := by
      simp only [mem_map, exists_exists_and_eq_and]
      exact exists_congr fun fe => and_congr_right fun member =>
        place_eq_target_iff (cleanFiles fe member) place
    rw [done.files idle, installed, listed_add_iff, holds.owned, written]
    constructor
    · rintro (⟨name, old, found, path, listed, same⟩ | new)
      · by_cases replaced : name = m.name
        · -- A file of the old version: the new version lists it, or another package does.
          subst replaced
          rcases reconciled m opened old found path listed with ⟨fe, member, rfl⟩ | ⟨other, rec, different,
            get, also⟩
          · exact .inl ⟨fe.path, mem_map_of_mem member, same⟩
          · exact .inr ⟨other, rec, different, get, path, also, same⟩
        · exact .inr ⟨name, old, replaced, found, path, listed, same⟩
      · exact .inl new
    · rintro (new | ⟨other, old, -, found, listed⟩)
      · exact .inr new
      · exact .inl ⟨other, old, found, listed⟩

theorem owned_remove (idle : platform.Idle) {name : String} (op : event.op = .remove name)
    (holds : OwnedCleanly platform opts root) (reconciled : Reconciled platform opts root event)
    (step : successfulStep platform opts root event = some next) :
    OwnedCleanly platform opts next := by
  obtain ⟨_, faults⟩ := event
  subst op
  obtain ⟨noFaults, unshared⟩ := reconciled
  obtain rfl : faults = [] := noFaults
  obtain ⟨present, free⟩ := removed_free step
  obtain ⟨rec, found⟩ := Option.isSome_iff_exists.mp present
  obtain ⟨after, ends, database, files⟩ := remove_ends platform opts holds.readable found free
  obtain ⟨-, store⟩ := successfulStep_eq_some step
  obtain rfl : next = after := by
    rw [store]
    exact congrArg Result.store ends
  have installed : next.installed = root.installed.remove name := by rw [Root.installed, database]
  refine ⟨by rw [database]; simp, fun other old get path listed => ?_, fun place => ?_⟩
  · rw [installed, Database.get_remove] at get
    split at get
    · cases get
    · exact holds.clean other old get path listed
  · have kept : (∀ path ∈ rec.files, opts.place platform ++ place ≠ opts.target platform path) ↔
        ∀ path ∈ rec.files, elements (utf8 path) ≠ place :=
      forall₂_congr fun path listed =>
        (place_eq_target_iff (holds.clean name rec found path listed) place).not
    rw [files idle, installed, listed_remove_iff, holds.owned, kept]
    constructor
    · rintro ⟨⟨other, old, get, path, listed, same⟩, others⟩
      refine ⟨other, old, ?_, get, path, listed, same⟩
      rintro rfl
      rw [found] at get
      cases get
      exact others path listed same
    · rintro ⟨other, old, different, get, path, listed, same⟩
      refine ⟨⟨other, old, get, path, listed, same⟩, fun own member equal => ?_⟩
      rw [elements_injective (equal.trans same.symm)] at member
      exact unshared rec found path member ⟨other, old, different, get, listed⟩

end Step

/-- After every run of successful calls of which each gives up no file that only an old version listed, and
takes none away that another package lists, the files of the overlay are those the packages list. -/
theorem overlay_owned_of_reconciled (platform : Platform) (opts : Options) (idle : platform.Idle)
    {root last : Root} {events : List PackageEvent} (fresh : root.Fresh)
    (empty : ∀ place, ¬ IsFile root.tree (opts.place platform ++ place))
    (clean : CleanPackages platform opts events)
    (reconciled : Machine.Throughout (successfulStep platform opts) (Reconciled platform opts) root events)
    (runs : Machine.run (successfulStep platform opts) root events = some last) :
    Owned platform opts last := by
  have start : OwnedCleanly platform opts root := by
    have nothing : root.installed = Database.empty := by rw [Root.installed, fresh]
    refine ⟨by rw [fresh]; simp, fun name rec found => ?_, fun place => ?_⟩
    · rw [nothing] at found
      cases found
    · rw [nothing, listed_iff]
      exact iff_of_false (empty place) not_mem_nil
  have kept : ∀ state event next, OwnedCleanly platform opts state →
      Reconciled platform opts state event ∧ (∀ m, event.op.manifest platform opts = some m →
        ∀ fe ∈ m.files, CleanRelative fe.path) →
      successfulStep platform opts state event = some next → OwnedCleanly platform opts next := by
    rintro state event next holds ⟨reconciled, clean⟩ step
    cases op : event.op with
    | install installedAt package => exact owned_install idle op holds reconciled clean step
    | remove name => exact owned_remove idle op holds reconciled step
  have meets := Machine.throughout_and reconciled (Machine.throughout_of_forall clean root)
  exact (Machine.run_invariant kept start meets runs).owned

/-- The package `tool` with one file, a new version without it, and the package `spare` with the same
file. -/
def overlappingPackages : Platform :=
  shelf [plainManifest "tool" [] ["x"], plainManifest "tool" [] [], plainManifest "spare" [] ["x"]]

def removeNamed (name : String) : PackageEvent :=
  { op := .remove name, faults := [] }

/-- The file `x` of the overlay. -/
def fileX (root : Root) : Option Node :=
  root.tree.lookup (defaultOptions.place overlappingPackages ++ [utf8 "x"])

def listedFiles (root : Root) : List Location :=
  root.installed.packages.flatMap fun entry => entry.2.files.map fun path => elements (utf8 path)

/-- Installing and removing `tool` leaves the overlay as its packages list it. -/
theorem tool_installed_removed_owned :
    ∃ last, Machine.run (successfulStep overlappingPackages defaultOptions) bareRoot
        [installIndex 0, removeNamed "tool"] = some last ∧
      Owned overlappingPackages defaultOptions last := by
  have empty : ∀ place, ¬ IsFile bareRoot.tree (defaultOptions.place overlappingPackages ++ place) := by
    rintro place ⟨content, mode, found⟩
    simp only [bareRoot, FileTree.lookup, FileTree.bare, FileTree.nodeAt, find?_cons,
      find?_nil] at found
    split at found <;> cases found
  obtain ⟨last, runs⟩ := Option.isSome_iff_exists.mp
    (show (Machine.run (successfulStep overlappingPackages defaultOptions) bareRoot
      [installIndex 0, removeNamed "tool"]).isSome by decide +kernel)
  exact ⟨last, runs, overlay_owned_of_reconciled overlappingPackages defaultOptions (fun _ _ _ => rfl)
    (show bareRoot.Fresh from rfl) empty (by decide +kernel) (by decide +kernel) runs⟩

/-- The new version of `tool` leaves the file of the old one behind; removing `tool` takes away the file
of `spare`. -/
theorem overlay_not_owned :
    (∃ last, Machine.run (successfulStep overlappingPackages defaultOptions) bareRoot
        [installIndex 0, installIndex 1] = some last ∧
      ¬ Owned overlappingPackages defaultOptions last) ∧
    ∃ last, Machine.run (successfulStep overlappingPackages defaultOptions) bareRoot
        [installIndex 0, installIndex 2, removeNamed "tool"] = some last ∧
      ¬ Owned overlappingPackages defaultOptions last := by
  have left : (Machine.run (successfulStep overlappingPackages defaultOptions) bareRoot
      [installIndex 0, installIndex 1]).map (fun root => (fileX root, listedFiles root)) =
        some (some (.file [] 0o644), []) := by
    decide +kernel
  have gone : (Machine.run (successfulStep overlappingPackages defaultOptions) bareRoot
      [installIndex 0, installIndex 2, removeNamed "tool"]).map
        (fun root => (fileX root, listedFiles root)) = some (none, [[utf8 "x"]]) := by
    decide +kernel
  obtain ⟨last, runs, seen⟩ := Option.map_eq_some_iff.mp left
  obtain ⟨other, runsOther, seenOther⟩ := Option.map_eq_some_iff.mp gone
  have file : fileX last = some (.file [] 0o644) := congrArg Prod.fst seen
  have listed : listedFiles last = [] := congrArg Prod.snd seen
  have noFile : fileX other = none := congrArg Prod.fst seenOther
  have stillListed : listedFiles other = [[utf8 "x"]] := congrArg Prod.snd seenOther
  refine ⟨⟨last, runs, fun owned => ?_⟩, ⟨other, runsOther, fun owned => ?_⟩⟩
  · have inList : [utf8 "x"] ∈ listedFiles last :=
      (listed_iff _ _).mp ((owned [utf8 "x"]).mp ⟨_, _, file⟩)
    rw [listed] at inList
    exact not_mem_nil inList
  · have inList : [utf8 "x"] ∈ listedFiles other := stillListed ▸ mem_cons_self
    obtain ⟨content, mode, found⟩ := (owned [utf8 "x"]).mpr ((listed_iff _ _).mpr inList)
    rw [fileX, found] at noFile
    cases noFile

end NuraOS.Packages
