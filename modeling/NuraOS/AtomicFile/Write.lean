/-
Purpose: Power-loss-safe writes (`services/internal/atomicfile/atomicfile.go`), call after call.
Trusted boundary: A power loss leaves a name as it was at some moment since its directory was last synced, and
  anything in a file that was not synced.
-/
import NuraOS.Foundation.CrashProgram
import NuraOS.Foundation.Text

namespace NuraOS.AtomicFile

open Foundation List

structure File where
  data : Bytes
  synced : Bool
deriving DecidableEq

/-- What `path` leads to, what it led to since the directory was last synced, and the temporary file. -/
structure Directory where
  file : Option File
  earlier : List (Option File)
  temp : Option File

def Directory.moments (dir : Directory) : List (Option File) := dir.file :: dir.earlier

/-- The moment a power loss brings back, and what is found in a file that was not synced. -/
structure Loss where
  moment : Nat
  torn : Bytes

def Directory.powerLoss (dir : Directory) (loss : Loss) : Directory where
  file := (dir.moments[loss.moment]?.getD dir.file).map fun file =>
    if file.synced then file else ⟨loss.torn, true⟩
  earlier := []
  temp := none

inductive Call where
  | createTemp
  | write (data : Bytes)
  | sync
  | chmod
  | close
  | rename
  | remove
  | openDir
  | syncDir

abbrev Reply := Except String Unit

def serve : Call → Directory → Reply × Directory
  | .createTemp, dir => (.ok (), { dir with temp := some ⟨[], false⟩ })
  | .write data, dir => (.ok (), { dir with temp := some ⟨data, false⟩ })
  | .sync, dir => (.ok (), { dir with temp := dir.temp.map fun file => { file with synced := true } })
  | .rename, dir =>
    match dir.temp with
    | none => (.error "no such file or directory", dir)
    | some file => (.ok (), ⟨some file, dir.moments, none⟩)
  | .remove, dir => (.ok (), { dir with temp := none })
  | .syncDir, dir => (.ok (), { dir with earlier := [] })
  | .chmod, dir | .close, dir | .openDir, dir => (.ok (), dir)

/-- A write that does not get to its end leaves a part; the other calls have their effect or none. -/
def partly (amount : Nat) : Call → Directory → Directory
  | .write data, dir => { dir with temp := some ⟨data.take amount, false⟩ }
  | _, dir => dir

@[reducible] def calls : Calls Directory where
  Call := Call
  Reply _ := Reply
  serve := serve
  fail call amount dir := (.error "input/output error", partly amount call dir)
  tear call amount dir := if amount = 0 then (serve call dir).2 else partly (amount - 1) call dir

def call (request : Call) : Prog calls Reply := .call request .ret

/-- The calls of `Write` after which the temporary file is removed if one fails. -/
def replace (data : Bytes) : Prog calls Reply :=
  (call (.write data)).andThen fun _ => (call .sync).andThen fun _ => (call .chmod).andThen fun _ =>
    (call .close).andThen fun _ => call .rename

/-- `Write`. -/
def write (data : Bytes) : Prog calls Reply :=
  (call .createTemp).andThen fun _ => (replace data).bind fun
    | .error e => (call .remove).bind fun _ => .ret (.error e)
    | .ok _ => (call .openDir).bind fun
      -- The directory is synced at best effort.
      | .error _ => .ret (.ok ())
      | .ok _ => (call .syncDir).bind fun _ => .ret (.ok ())

/-- A power loss brings back what it could bring back before, or the new file. -/
def Guard (data : Bytes) (before after : Directory) : Prop :=
  after.moments ⊆ some ⟨data, true⟩ :: before.moments

variable {dir : Directory} {request : Call} {data : Bytes} {faults : List Fault}

theorem call_safe (stays : request ≠ .rename) : (call request).Safe (Guard data) (fun reply after =>
    after.file = dir.file ∧ (reply = .ok () → serve request dir = (reply, after))) dir := by
  have guarded : ∀ after : Directory, after.file = dir.file ∧ after.earlier ⊆ dir.earlier → Guard data dir after := by
    rintro after ⟨same, fewer⟩
    rw [Guard, Directory.moments, Directory.moments, same]
    exact subset_cons_of_subset _ (cons_subset_cons _ fewer)
  have served : (serve request dir).2.file = dir.file ∧ (serve request dir).2.earlier ⊆ dir.earlier := by
    cases request <;> grind [serve]
  have part : ∀ amount, (partly amount request dir).file = dir.file ∧
      (partly amount request dir).earlier ⊆ dir.earlier := by
    intro amount
    cases request <;> grind [partly]
  refine ⟨⟨guarded _ served, served.1, fun _ => rfl⟩, fun amount =>
    ⟨guarded _ (part amount), (part amount).1, nofun⟩, fun amount => ?_⟩
  show Guard data dir (if amount = 0 then _ else _)
  split
  · exact guarded _ served
  · exact guarded _ (part _)

/-- What a reader finds after a call. -/
def Written (data : Bytes) (before : Option File) (reply : Reply) (after : Directory) : Prop :=
  match reply with
  | .ok _ => after.file = some ⟨data, true⟩
  | .error _ => after.file = before

/-- The rule for a call whose error ends the program. -/
theorem call_andThen {next : Unit → Prog calls Reply} {before : Option File} (stays : request ≠ .rename)
    (same : dir.file = before) (goes : ∀ after, after.file = before → serve request dir = (.ok (), after) →
      (next ()).Safe (Guard data) (Written data before) after) :
    ((call request).andThen next).Safe (Guard data) (Written data before) dir :=
  (call_safe stays).andThen (fun _ _ replied => replied.1.trans same)
    fun _ after replied => goes after (replied.1.trans same) (replied.2 rfl)

theorem replace_safe : (replace data).Safe (Guard data) (Written data dir.file) dir := by
  iterate 4
    apply call_andThen (by nofun) rfl
    rintro _ _ ⟨⟩
  have guarded : Guard data dir ⟨some ⟨data, true⟩, dir.moments, none⟩ := Subset.refl _
  have unchanged : Guard data dir dir := subset_cons_self _ _
  refine ⟨⟨guarded, rfl⟩, fun _ => ⟨unchanged, rfl⟩, fun amount => ?_⟩
  show Guard data _ (if amount = 0 then _ else _)
  split
  · exact guarded
  · exact unchanged

theorem write_safe : (write data).Safe (Guard data) (Written data dir.file) dir := by
  apply call_andThen (by nofun) rfl
  rintro _ - ⟨⟩
  apply replace_safe.bind
  intro reply after written
  cases reply with
  | error e => exact (call_safe (by nofun)).bind fun _ _ replied => replied.1.trans written
  | ok _ =>
    apply (call_safe (by nofun)).bind
    intro opened later replied
    cases opened with
    | error _ => exact replied.1.trans written
    | ok _ => exact (call_safe (by nofun)).bind fun _ _ synced => synced.1.trans (replied.1.trans written)

/-- What a power loss can bring back of the file is on the device. -/
def Directory.Synced (dir : Directory) : Prop := ∀ file, some file ∈ dir.moments → file.synced = true

inductive Event where
  | write (data : Bytes) (faults : List Fault)
  | powerLoss (loss : Loss)

def Directory.step (dir : Directory) : Event → Directory
  | .write data faults => ((AtomicFile.write data).run faults dir).store
  | .powerLoss loss => dir.powerLoss loss

/-- The whole files that a run may have put in place. -/
def Event.written : Event → List (Option File)
  | .write data _ => [some ⟨data, true⟩]
  | .powerLoss _ => []

theorem write_moments : ((write data).run faults dir).store.moments ⊆ some ⟨data, true⟩ :: dir.moments := by
  refine write_safe.keeps_run (fun _ _ guarded within => List.Subset.trans guarded ?_) (subset_cons_self _ _) faults
  exact cons_subset.mpr ⟨mem_cons_self, within⟩

theorem powerLoss_moments (synced : dir.Synced) (loss : Loss) : (dir.powerLoss loss).moments ⊆ dir.moments := by
  have member : dir.moments[loss.moment]?.getD dir.file ∈ dir.moments := by
    cases found : dir.moments[loss.moment]? with
    | none => exact mem_cons_self
    | some file => exact mem_of_getElem? found
  rw [Directory.moments, Directory.powerLoss, cons_subset]
  generalize dir.moments[loss.moment]?.getD dir.file = file at member
  cases file with
  | none => exact ⟨member, nil_subset _⟩
  | some file => exact ⟨by simpa [synced file member] using member, nil_subset _⟩

theorem step_moments (synced : dir.Synced) (event : Event) :
    (dir.step event).moments ⊆ event.written ++ dir.moments := by
  cases event with
  | write data faults => exact write_moments
  | powerLoss loss => exact powerLoss_moments synced loss

theorem step_synced (synced : dir.Synced) (event : Event) : (dir.step event).Synced := by
  intro file member
  rcases mem_append.mp (step_moments synced event member) with new | old
  · cases event with
    | write data faults =>
      cases mem_singleton.mp new
      rfl
    | powerLoss loss => cases new
  · exact synced file old

theorem foldl_moments (synced : dir.Synced) (events : List Event) :
    (events.foldl Directory.step dir).moments ⊆ events.flatMap Event.written ++ dir.moments := by
  induction events generalizing dir with
  | nil => exact Subset.refl _
  | cons event events ih =>
    have first := step_moments synced event
    have rest := ih (step_synced synced event)
    rw [foldl_cons, flatMap_cons]
    grind

/-- Wherever the machine stops and whatever fails, the file is whole: the first one or one that was written.
A call that returns has replaced it or, with an error, left it alone. -/
theorem writes_atomic (dir : Directory) (events : List Event) (data : Bytes) (faults : List Fault)
    (synced : dir.Synced) :
    (events.foldl Directory.step dir).file ∈ events.flatMap Event.written ++ dir.moments ∧
      ∀ reply, ((write data).run faults (events.foldl Directory.step dir)).outcome = .returned reply →
        Written data (events.foldl Directory.step dir).file reply
          ((write data).run faults (events.foldl Directory.step dir)).store :=
  ⟨foldl_moments synced events mem_cons_self, fun _ => write_safe.of_returned⟩

/-- The machine stops in the second write. -/
theorem writes_atomic_stopped :
    ([.write [1] [], .write [2] [.pass, .crash 1], .powerLoss ⟨0, [9]⟩].foldl Directory.step ⟨none, [], none⟩).file ∈
      [some ⟨[1], true⟩, some ⟨[2], true⟩, none] :=
  (writes_atomic ⟨none, [], none⟩ [.write [1] [], .write [2] [.pass, .crash 1], .powerLoss ⟨0, [9]⟩] [] []
    (by simp [Directory.Synced, Directory.moments])).1

/-- Nothing older than a call that returned without an error and has synced the directory comes back. -/
theorem write_durable (dir : Directory) (data : Bytes) (faults : List Fault) (events : List Event)
    (returned : ((write data).run faults dir).outcome = .returned (.ok ()))
    (settled : ((write data).run faults dir).store.earlier = []) :
    (events.foldl Directory.step ((write data).run faults dir).store).file ∈
      events.flatMap Event.written ++ [some ⟨data, true⟩] := by
  have file : ((write data).run faults dir).store.file = some ⟨data, true⟩ := write_safe.of_returned returned
  have moments : ((write data).run faults dir).store.moments = [some ⟨data, true⟩] := by
    rw [Directory.moments, file, settled]
  have synced : ((write data).run faults dir).store.Synced := by simp [Directory.Synced, moments]
  exact moments ▸ foldl_moments synced events mem_cons_self

theorem write_durable_loss :
    (((write [1]).run [] ⟨some ⟨[0], true⟩, [], none⟩).store.powerLoss ⟨1, []⟩).file ∈ [some ⟨[1], true⟩] :=
  write_durable ⟨some ⟨[0], true⟩, [], none⟩ [1] [] [.powerLoss ⟨1, []⟩] rfl rfl

/-- The last sync may fail unreported, and the old file come back. -/
example : let result := (write [1]).run (replicate 7 .pass ++ [.ioError 0]) ⟨some ⟨[0], true⟩, [], none⟩
    result.outcome = .returned (.ok ()) ∧ (result.store.powerLoss ⟨1, []⟩).file = some ⟨[0], true⟩ := by
  decide

end NuraOS.AtomicFile
