/-
Purpose: Which files the retention jobs and size caps remove, and the provenance log next to them.
-/
import NuraOS.Journal.Journal
import NuraOS.Proofs.FailureFreeRuns

namespace NuraOS.Retention

open List NuraOS.Provenance

variable {remove : String → RemoveOutcome} {limit now retentionDays : Int} {entry : FileEntry}

def Removable (remove : String → RemoveOutcome) (entry : FileEntry) : Prop :=
  ∀ message, remove entry.path ≠ .failed message

theorem mem_sweep {entries : List FileEntry} :
    entry ∈ (sweep remove limit entries).gone ↔
      entry ∈ entries ∧ entry.mod < limit ∧ Removable remove entry := by
  induction entries with
  | nil => simp [sweep]
  | cons head rest ih =>
    simp only [sweep, mem_cons]
    split
    · split <;> grind [Removable]
    · grind

theorem mem_walkSessions {path : String} {sessions : SessionsDir} {file : SessionFile}
    (member : file ∈ sessions.files) : sessionEntry path file ∈ walkSessions path sessions :=
  mem_map_of_mem ((mem_insertionSort _).mpr member)

/-- The files of the three directories. -/
def DataDir.entries (data : DataDir) (dataDir : String) : List FileEntry :=
  data.sessions.files.map (sessionEntry (dataDir ++ "/sessions")) ++ data.journal ++ data.provenance

theorem mem_entries_deleteExpired {data : DataDir} {dataDir : String} :
    entry ∈ (deleteExpired remove now dataDir retentionDays data).2.entries dataDir ↔
      entry ∈ data.entries dataDir ∧
        ¬(entry.mod < cutoff now retentionDays ∧ Removable remove entry) := by
  simp only [deleteExpired, DataDir.entries, mem_append, mem_map, SessionsDir.mem_keep, mem_filter,
    decide_eq_true_eq, mem_sweep]
  grind [mem_walkSessions]

/-- The start of the window in unbounded integers. -/
def windowStart (now retentionDays : Int) : Int :=
  now - retentionDays * 24 * 3600000000000

theorem cutoff_eq_windowStart (positive : 1 ≤ retentionDays) (few : retentionDays ≤ 106751) :
    cutoff now retentionDays = windowStart now retentionDays := by
  simp only [cutoff, windowStart]
  rw [if_neg (by omega), Int.bmod_eq_of_le (by omega) (by omega)]
  omega

/-- A file is removed exactly if it is older than the window, unless `os.Remove` fails on it. -/
def RemovesExpired (remove : String → RemoveOutcome) (now : Int) (dataDir : String)
    (retentionDays : Int) (data : DataDir) : Prop :=
  ∀ entry ∈ data.entries dataDir,
    entry ∉ (deleteExpired remove now dataDir retentionDays data).2.entries dataDir ↔
      entry.mod < windowStart now retentionDays ∧ Removable remove entry

/-- What is removed is what has expired, unless the window wraps round and a file lies between the two
cutoffs. -/
theorem deleteExpired_exact_iff (remove : String → RemoveOutcome) (now : Int) (dataDir : String)
    (data : DataDir) (positive : 1 ≤ retentionDays) :
    RemovesExpired remove now dataDir retentionDays data ↔
      retentionDays ≤ 106751 ∨ ∀ entry ∈ data.entries dataDir, Removable remove entry →
        ¬(min (cutoff now retentionDays) (windowStart now retentionDays) ≤ entry.mod ∧
          entry.mod < max (cutoff now retentionDays) (windowStart now retentionDays)) := by
  simp only [RemovesExpired, mem_entries_deleteExpired]
  constructor
  · intro removes
    refine .inr fun entry member removable => ?_
    have same := removes entry member
    simp only [member, removable, true_and, and_true, not_not] at same
    omega
  · intro apart entry member
    have same : Removable remove entry →
        (entry.mod < cutoff now retentionDays ↔ entry.mod < windowStart now retentionDays) := by
      intro removable
      rcases apart with few | apart
      · rw [cutoff_eq_windowStart positive few]
      · have := apart entry member removable
        omega
    by_cases removable : Removable remove entry
    · simp [member, removable, same removable]
    · simp [member, removable]

def twoJournals : DataDir :=
  { sessions := SessionsDir.empty, logs := [], provenance := []
    journal := [{ path := "/data/journal/app.ndjson", size := 1, mod := 0 },
      { path := "/data/journal/gateway.ndjson", size := 1, mod := 3600000000000 }] }

/-- Half an hour and thirty days after the first of two files, that one is removed. -/
theorem thirtyDays_exact :
    RemovesExpired (fun _ => .removed) 2593800000000000 "/data" 30 twoJournals :=
  (deleteExpired_exact_iff _ _ _ _ (by decide)).mpr (.inl (by decide))

/-- A window of 106752 days has wrapped round, and a file of the last hour is removed. -/
theorem longWindow_not_exact :
    ¬RemovesExpired (fun _ => .removed) 3600000000000 "/data" 106752 twoJournals := by
  intro removes
  have expired := (removes _ (mem_append_left _ (mem_append_right _ mem_cons_self))).mp
    fun kept => (mem_entries_deleteExpired.mp kept).2 ⟨by decide, by simp [Removable]⟩
  exact absurd expired.1 (by decide)

open Foundation SessionsDir Machine

def OverCap (cap : Int) (order : List FileEntry) (entry : FileEntry) : Prop :=
  ∃ before after, order = before ++ entry :: after ∧ cap < totalSize (entry :: after)

theorem totalSize_append (first second : List FileEntry) :
    totalSize (first ++ second) = totalSize first + totalSize second := by
  simp [totalSize]

theorem totalSize_nonneg (entries : List FileEntry) : 0 ≤ totalSize entries := by
  induction entries with
  | nil => exact le_refl _
  | cons entry rest ih =>
    exact Int.add_nonneg (Int.natCast_nonneg _) ih

variable {entry : FileEntry} {now : Int} {writer : ProvenanceWriter}

theorem mem_trimLoop {cap : Int} {order : List FileEntry} {freed : Int} :
    entry ∈ (trimLoop (fun _ => true) cap order (totalSize order) freed).2 ↔
      OverCap cap order entry := by
  induction order generalizing freed with
  | nil => simp [trimLoop, OverCap]
  | cons head rest ih =>
    by_cases small : totalSize (head :: rest) ≤ cap
    · rw [trimLoop, if_pos small]
      constructor
      · intro member
        cases member
      · rintro ⟨before, after, split, exceeds⟩
        have parts := totalSize_append before (entry :: after)
        rw [← split] at parts
        have nonneg := totalSize_nonneg before
        omega
    · have rest_total : totalSize (head :: rest) - head.size = totalSize rest := by
        simp [totalSize]
      rw [trimLoop, if_neg small, rest_total]
      simp only [if_true, mem_cons, ih]
      constructor
      · rintro (rfl | ⟨before, after, rfl, exceeds⟩)
        · exact ⟨[], rest, rfl, Int.not_le.mp small⟩
        · exact ⟨head :: before, after, rfl, exceeds⟩
      · rintro ⟨before, after, split, exceeds⟩
        cases before with
        | nil =>
          obtain ⟨rfl, -⟩ := List.cons.inj split
          exact Or.inl rfl
        | cons first before =>
          obtain ⟨-, rfl⟩ := List.cons.inj split
          exact Or.inr ⟨before, after, rfl, exceeds⟩

variable {Value : Type} (serde : SerdeJson Value) (sorter : SortSlice)

def Due (machine : Machine) (file : SessionFile) : MachineEvent Value → Prop
  | .reclaim opts =>
    0 < opts.sessionCap ∧
      OverCap opts.sessionCap
        (sorter.sort (walkSessions (opts.dataDir ++ "/sessions") machine.data.sessions))
        (sessionEntry (opts.dataDir ++ "/sessions") file)
  | .deleteExpired now _ retentionDays => file.mtime < cutoff now retentionDays
  | _ => False

/-- A writer that starts a new file still has its file in the directory, and the new file is not the
ten-thousandth; and when a job is about to take a session file, it is about to take every later one
as well. -/
def Orderly (machine : Machine) (event : MachineEvent Value) : Prop :=
  (∀ args writer, event = .appendEntry args → machine.writer = some writer →
    writer.rotates = true →
      (∃ file ∈ machine.data.sessions.files, file.inode = writer.file) ∧
        machine.data.sessions.fileCount < 9999) ∧
  ∀ first ∈ machine.data.sessions.files, ∀ second ∈ machine.data.sessions.files,
    isJsonl first.name = true → isJsonl second.name = true → first.name < second.name →
      Due sorter machine first event → Due sorter machine second event

variable {serde sorter} {machine : Machine}

structure JobStep (machine after : Machine) (due : SessionFile → Prop) : Prop where
  sessions : ∃ kept, after.data.sessions = machine.data.sessions.keep kept ∧
    ∀ file ∈ machine.data.sessions.files, kept file = true ↔ ¬ due file
  writer : after.writer = machine.writer

variable (serde sorter machine) in
theorem jobStep_reclaim (opts : ReclaimOptions) :
    JobStep machine (machine.step serde sorter (.reclaim opts))
      fun file => Due sorter machine file (.reclaim opts : MachineEvent Value) where
  sessions := by
    refine ⟨_, rfl, ?_⟩
    intro file member
    rw [decide_eq_true_iff, trimIfCapped]
    by_cases positive : 0 < opts.sessionCap
    · rw [if_pos positive, trimOldestFiles, mem_trimLoop]
      exact not_congr (and_iff_right positive).symm
    · rw [if_neg positive]
      exact iff_of_true not_mem_nil fun due => positive due.1
  writer := rfl

variable (serde sorter machine) in
theorem jobStep_deleteExpired (now : Int) (dataDir : String) (retentionDays : Int) :
    JobStep machine (machine.step serde sorter (.deleteExpired now dataDir retentionDays))
      fun file => Due sorter machine file
        (.deleteExpired now dataDir retentionDays : MachineEvent Value) where
  sessions := by
    refine ⟨_, rfl, ?_⟩
    intro file member
    have walked : sessionEntry (dataDir ++ "/sessions") file ∈ _ := mem_walkSessions member
    rw [decide_eq_true_iff, mem_sweep, and_iff_right walked]
    exact not_congr (and_iff_left (by simp [Removable]))
  writer := rfl

/-! ### What is left of the log -/

/-- Where a writer can be: at the end of the log, or with a file that is no longer there. -/
def Placed (serde : SerdeJson Value) (dir : SessionsDir)
    (chunks : List (List (ProvenanceEntry Value))) (writer : ProvenanceWriter) : Prop :=
  (AtEnd serde dir chunks writer ∧ writer.seq = chunks.flatten.length) ∨
    ((∀ file ∈ dir.files, file.inode ≠ writer.file) ∧ writer.file < dir.nextInode)

def Retained (serde : SerdeJson Value) (machine : Machine) : Prop :=
  ∃ chunks, Log serde machine.data.sessions chunks ∧ chunks.length < 10000 ∧
    ∀ writer, machine.writer = some writer → Placed serde machine.data.sessions chunks writer

/-- A property of the numbers below a bound that passes to larger ones starts somewhere. -/
theorem exists_threshold {due : Nat → Prop} (bound : Nat)
    (upward : ∀ index later, index < later → later < bound → due index → due later) :
    ∃ count ≤ bound, ∀ index < bound, ¬ due index ↔ index < count := by
  classical
  by_cases some : ∃ index, index < bound ∧ due index
  · obtain ⟨below, isDue⟩ := Nat.find_spec some
    refine ⟨Nat.find some, below.le, fun index within => ⟨fun fresh => ?_, fun early is => ?_⟩⟩
    · by_contra late
      rcases (Nat.le_of_not_lt late).eq_or_lt with same | less
      · exact fresh (same ▸ isDue)
      · exact fresh (upward _ index less within isDue)
    · exact Nat.find_min some early ⟨within, is⟩
  · exact ⟨bound, le_rfl, fun index within => iff_of_true (fun is => some ⟨index, within, is⟩) within⟩

section Keep

variable {dir : SessionsDir} {chunks : List (List (ProvenanceEntry Value))}
  {kept : SessionFile → Bool} {count : Nat}

theorem exists_first_due (log : Log serde dir chunks) (few : chunks.length < 10000)
    {due : SessionFile → Prop} (keeps : ∀ file ∈ dir.files, kept file = true ↔ ¬ due file)
    (upward : ∀ first ∈ dir.files, ∀ second ∈ dir.files, isJsonl first.name = true →
      isJsonl second.name = true → first.name < second.name → due first → due second) :
    ∃ count ≤ chunks.length, ∀ index file, index < chunks.length →
      dir.find (sessionName (index + 1)) = some file → (kept file = true ↔ index < count) := by
  have threshold : ∃ count ≤ chunks.length, ∀ index < chunks.length,
      ¬ (∀ file, dir.find (sessionName (index + 1)) = some file → due file) ↔ index < count := by
    apply exists_threshold
    intro index later less below dueIndex file found
    obtain ⟨earlier, earlierFound⟩ := log.toHolds.exists_find (Nat.lt_trans less below)
    obtain ⟨member, named⟩ := find_eq_some_iff.mp found
    obtain ⟨earlierMember, earlierNamed⟩ := find_eq_some_iff.mp earlierFound
    refine upward earlier earlierMember file member ?_ ?_ ?_ (dueIndex earlier earlierFound)
    · rw [earlierNamed, isJsonl_sessionName]
    · rw [named, isJsonl_sessionName]
    · rw [named, earlierNamed]
      exact sessionName_lt (Nat.succ_lt_succ less) (by omega)
  obtain ⟨count, within, splits⟩ := threshold
  refine ⟨count, within, ?_⟩
  intro index file below found
  rw [keeps file (find_eq_some_iff.mp found).1, ← splits index below]
  constructor
  · intro notDue allDue
    exact notDue (allDue file found)
  · intro notAllDue isDue
    apply notAllDue
    intro other otherFound
    obtain rfl := Option.some.inj (found.symm.trans otherFound)
    exact isDue

/-- A writer at the end stays there when nothing is taken; otherwise its file is the first to go. -/
theorem Placed.keep {writer : ProvenanceWriter} (placed : Placed serde dir chunks writer)
    (within : count ≤ chunks.length)
    (first : ∀ index file, index < chunks.length → dir.find (sessionName (index + 1)) = some file →
      (kept file = true ↔ index < count)) :
    Placed serde (dir.keep kept) (chunks.take count) writer := by
  rcases placed with ⟨atEnd, number⟩ | ⟨missing, below⟩
  · obtain ⟨front, last, split, ⟨file, found, handle⟩, size⟩ := atEnd.newest
    have length : chunks.length = front.length + 1 := by
      rw [split, length_append, length_singleton]
    rcases Nat.lt_or_eq_of_le within with less | all
    · right
      refine ⟨?_, ?_⟩
      · intro other inKept sameInode
        obtain ⟨inDir, stays⟩ := mem_keep.mp inKept
        obtain ⟨member, -⟩ := find_eq_some_iff.mp found
        obtain rfl : other = file := inj_on_of_nodup_map dir.inodesNodup inDir member
          (sameInode.trans handle.symm)
        have before := (first front.length other (by omega) found).mp stays
        omega
      · rw [← handle]
        exact dir.inodesBelow file (find_eq_some_iff.mp found).1
    · left
      rw [all, take_length]
      have stays := (first front.length file (by omega) found).mpr (by omega)
      exact ⟨⟨⟨front, last, split, ⟨file, find_keep_of_kept found stays, handle⟩, size⟩,
        atEnd.lastHash⟩, number⟩
  · right
    exact ⟨fun file inKept => missing file (mem_keep.mp inKept).1, below⟩

end Keep

theorem Retained.job {after : Machine} {due : SessionFile → Prop}
    (retained : Retained serde machine) (job : JobStep machine after due)
    (upward : ∀ first ∈ machine.data.sessions.files, ∀ second ∈ machine.data.sessions.files,
      isJsonl first.name = true → isJsonl second.name = true → first.name < second.name →
        due first → due second) :
    Retained serde after := by
  obtain ⟨chunks, log, few, placed⟩ := retained
  obtain ⟨⟨kept, sessions, keeps⟩, sameWriter⟩ := job
  obtain ⟨count, within, first⟩ := exists_first_due log few keeps upward
  refine ⟨chunks.take count, ?_, ?_, ?_⟩
  · rw [sessions]
    exact log.keep within first
  · rw [length_take_of_le within]
    exact Nat.lt_of_le_of_lt within few
  · intro writer present
    rw [sameWriter] at present
    rw [sessions]
    exact (placed writer present).keep within first

theorem opened_of_logStep
    (present : (machine.logStep serde (.openLog now [])).writer = some writer) :
    ((ProvenanceWriter.open serde now).run [] machine.data.sessions).outcome =
      .returned (.ok writer) := by
  simp only [logStep, World.step] at present
  split at present
  · simp_all
  · cases present

theorem Retained.openLog (retained : Retained serde machine) (now : Int) :
    Retained serde (machine.logStep serde (.openLog now [])) := by
  obtain ⟨chunks, log, few, -⟩ := retained
  obtain ⟨later, ⟨laterLog, shape⟩, opened⟩ := log.open_spec now few []
  refine ⟨later, laterLog, ?_, ?_⟩
  · rcases shape with rfl | ⟨-, rfl⟩
    · exact few
    · simp
  · intro writer present
    left
    exact opened writer (opened_of_logStep present)

theorem logStep_append {written : ProvenanceWriter} {args : AppendArgs Value}
    (present : machine.writer = some writer)
    (outcome : ((writer.append serde args.now args.kind args.turnId args.content).run []
      machine.data.sessions).outcome = .returned (.ok (), written)) :
    machine.logStep serde (.appendEntry args []) =
      { data :=
          { machine.data with
            sessions := ((writer.append serde args.now args.kind args.turnId args.content).run []
              machine.data.sessions).store }
        writer := some written } := by
  simp only [logStep, World.step, present, ProvenanceWriter.appendWith, outcome]

theorem logStep_append_stays (args : AppendArgs Value) (present : machine.writer = some writer)
    (stays : writer.rotates = false) :
    machine.logStep serde (.appendEntry args []) =
      { data :=
          { machine.data with
            sessions := machine.data.sessions.appendTo writer.file
              (entryLine serde (writer.entryFor serde args)) args.now }
        writer := some (writer.wrote serde (writer.entryFor serde args)) } := by
  have wrote : ((writer.writeEntry serde args.now args.kind args.turnId args.content).run []
      machine.data.sessions).outcome = .returned (.ok (), _) ∧ _ := writeEntry_writes rfl
  obtain ⟨outcome, store⟩ := wrote
  rw [← append_of_stays stays] at outcome store
  have stepped := logStep_append present outcome
  rw [stepped, store]
  rfl

/-- An append by a writer at the end extends the log; one by a writer without a file is lost. -/
theorem Retained.append (retained : Retained serde machine) (args : AppendArgs Value)
    (orderly : Orderly sorter machine (.appendEntry args)) :
    Retained serde (machine.logStep serde (.appendEntry args [])) := by
  obtain ⟨chunks, log, few, placed⟩ := retained
  cases present : machine.writer with
  | none =>
    have stepped : machine.logStep serde (.appendEntry args []) = machine := by
      cases machine
      simp_all [logStep, World.step]
    rw [stepped]
    exact ⟨chunks, log, few, placed⟩
  | some writer =>
    have rotation := orderly.1 args writer rfl present
    rcases placed writer present with ⟨atEnd, number⟩ | ⟨missing, below⟩
    · obtain ⟨written, later, outcome, laterLog, laterEnd, seq, flat, shape⟩ :=
        log.append_spec args.now args.kind args.turnId args.content atEnd number
          (goesThrough_nil _) rfl rfl
      have stepped := logStep_append present outcome
      rw [stepped]
      refine ⟨later, laterLog, ?_, ?_⟩
      · rcases shape with ⟨-, same⟩ | ⟨full, rfl⟩
        · rw [same]
          exact few
        · have room := (rotation full).2
          rw [log.toHolds.fileCount_eq] at room
          rw [length_append, length_singleton]
          exact Nat.succ_lt_succ room
      · intro other same
        obtain rfl : written = other := Option.some.inj same
        left
        refine ⟨laterEnd, ?_⟩
        rw [seq, flat, number, length_append, length_singleton]
    · have stays : writer.rotates = false := by
        cases full : writer.rotates with
        | false => rfl
        | true =>
          obtain ⟨file, member, handle⟩ := (rotation full).1
          exact absurd handle (missing file member)
      rw [logStep_append_stays args present stays, appendTo_of_missing missing]
      refine ⟨chunks, log, few, ?_⟩
      rintro other ⟨⟩
      exact Or.inr ⟨missing, below⟩

theorem Retained.step (retained : Retained serde machine) {event : MachineEvent Value}
    (orderly : Orderly sorter machine event) :
    Retained serde (machine.step serde sorter event) := by
  cases event with
  | openLog now => exact retained.openLog now
  | appendEntry args => exact retained.append args orderly
  | reclaim opts => exact retained.job (jobStep_reclaim serde sorter machine opts) orderly.2
  | deleteExpired now dataDir retentionDays =>
    exact retained.job (jobStep_deleteExpired serde sorter machine now dataDir retentionDays)
      orderly.2

theorem Retained.run {events : List (MachineEvent Value)} (retained : Retained serde machine)
    (orderly : machine.Throughout serde sorter (Orderly sorter) events) :
    Retained serde (machine.after serde sorter events) := by
  induction events generalizing machine with
  | nil => exact retained
  | cons event events ih =>
    exact ih (retained.step orderly.1) orderly.2

theorem Retained.fresh (logs journal provenance : List FileEntry) :
    Retained serde (Machine.fresh logs journal provenance) :=
  ⟨[], Log.empty, by simp, by simp [Machine.fresh]⟩

/-- In every state of an orderly run the verifier accepts what is left of the log. -/
theorem orderly_run_verifies (serde : SerdeJson Value) (sorter : SortSlice) (dirPath : String)
    (logs journal provenance : List FileEntry) (events : List (MachineEvent Value))
    (orderly : (Machine.fresh logs journal provenance).Throughout serde sorter (Orderly sorter)
      events) :
    ∃ count, verifyChain serde dirPath
      ((Machine.fresh logs journal provenance).after serde sorter events).data.sessions =
        .ok count := by
  obtain ⟨chunks, log, few, -⟩ := (Retained.fresh logs journal provenance).run orderly
  exact ⟨_, log.verifyChain_eq few dirPath⟩

/-! ### The oldest file expires -/

section Expiry

variable {writer : ProvenanceWriter} (args : AppendArgs Value)

variable (serde) in
theorem append_rotates_run (dir : SessionsDir) (full : writer.rotates = true) :
    let opened := dir.openAppend (sessionName (dir.fileCount + 1)) args.now
    let moved := { writer with file := opened.1, fileBytes := 0 }
    ((writer.append serde args.now args.kind args.turnId args.content).run [] dir).outcome =
        .returned (.ok (), moved.wrote serde (writer.entryFor serde args)) ∧
      ((writer.append serde args.now args.kind args.turnId args.content).run [] dir).store =
        opened.2.appendTo opened.1 (entryLine serde (writer.entryFor serde args)) args.now := by
  rw [append_of_rotates full, Prog.run_bind, rotate_passes rfl rfl]
  exact writeEntry_writes rfl

/-- Two appends that each fill a file, and the deletion of what expired after the first. -/
def expiryRun (first second : AppendArgs Value) (now : Int) : List (MachineEvent Value) :=
  [.openLog first.now, .appendEntry first, .appendEntry second, .deleteExpired now "/data" 90]

theorem step_openLog_fresh (serde : SerdeJson Value) (sorter : SortSlice) (now : Int) :
    (fresh [] [] []).step serde sorter (.openLog now) =
      { data :=
          { sessions := empty.create (sessionName 1) now rfl
            logs := [], journal := [], provenance := [] }
        writer := some { file := 0, seq := 0, lastHash := genesisHash, fileBytes := 0 } } := by
  rfl

variable {first second : AppendArgs Value} {now : Int}

theorem expiryRun_fills (serde : SerdeJson Value) (sorter : SortSlice) (firstFills : FillsFile serde first)
    (secondFills : FillsFile serde second) :
    let machine := (fresh [] [] []).after serde sorter
      [.openLog first.now, .appendEntry first, .appendEntry second]
    ∃ writer earlier later, machine.writer = some writer ∧ writer.rotates = true ∧ later.seq = 2 ∧
      machine.data.sessions.files =
        [{ name := sessionName 1, inode := 0, data := entryLine serde earlier, mtime := first.now },
          { name := sessionName 2, inode := 1, data := entryLine serde later
            mtime := second.now }] := by
  let start : ProvenanceWriter := { file := 0, seq := 0, lastHash := genesisHash, fileBytes := 0 }
  let opened := empty.create (sessionName 1) first.now rfl
  let filled := opened.appendTo 0 (entryLine serde (start.entryFor serde first)) first.now
  have firstFull : (start.wrote serde (start.entryFor serde first)).rotates = true :=
    decide_eq_true (Nat.le_trans (firstFills start) (Nat.le_add_left _ _))
  have names : filled.names = [sessionName 1] := by
    rw [names_appendTo]
    exact names_create rfl
  have count : filled.fileCount = 1 := by
    rw [fileCount, names]
    decide
  have free : filled.find (sessionName 2) = none := by
    apply find_eq_none_iff.mpr
    rw [names]
    decide
  have run := append_rotates_run serde second filled firstFull
  rw [count, openAppend_of_free free] at run
  simp only [Machine.after, foldl_cons, foldl_nil]
  rw [step_openLog_fresh]
  simp only [Machine.step]
  rw [logStep_append_stays first rfl rfl, logStep_append rfl run.1, run.2]
  refine ⟨_, start.entryFor serde first,
    (start.wrote serde (start.entryFor serde first)).entryFor serde second, rfl, ?_, rfl, ?_⟩
  · exact decide_eq_true (Nat.le_trans (secondFills _) (Nat.le_add_left _ _))
  · simp [appendTo, appendFile, create, empty,
      filled, opened, entryLine_ne_nil]

theorem expiryRun_leaves (serde : SerdeJson Value) (sorter : SortSlice) (firstFills : FillsFile serde first)
    (secondFills : FillsFile serde second) (old : first.now < cutoff now 90)
    (young : ¬ second.now < cutoff now 90) :
    let machine := (fresh [] [] []).after serde sorter (expiryRun first second now)
    ∃ writer later, machine.writer = some writer ∧ writer.rotates = true ∧ later.seq = 2 ∧
      machine.data.sessions.files =
        [{ name := sessionName 2, inode := 1, data := entryLine serde later
           mtime := second.now }] := by
  obtain ⟨writer, earlier, later, present, full, number, files⟩ :=
    expiryRun_fills serde sorter firstFills secondFills
  obtain ⟨⟨kept, sessions, keeps⟩, sameWriter⟩ := jobStep_deleteExpired serde sorter
    ((fresh [] [] []).after serde sorter
      [.openLog first.now, .appendEntry first, .appendEntry second]) now "/data" 90
  rw [files] at keeps
  refine ⟨writer, later, sameWriter.trans present, full, number, ?_⟩
  have gone := keeps _ mem_cons_self
  have stays := keeps _ (mem_cons_of_mem _ mem_cons_self)
  have filtered := congrArg SessionsDir.files sessions
  rw [SessionsDir.files_keep, files, filter_cons_of_neg fun isKept => gone.mp isKept old,
    filter_cons_of_pos (stays.mpr young)] at filtered
  exact filtered

/-- The next append goes through, to the same file, and the log is rejected from then on. -/
theorem expiryRun_rejected (serde : SerdeJson Value) (sorter : SortSlice) (dirPath : String)
    (firstFills : FillsFile serde first)
    (secondFills : FillsFile serde second) (old : first.now < cutoff now 90)
    (young : ¬ second.now < cutoff now 90) (third : AppendArgs Value) :
    let machine := (fresh [] [] []).after serde sorter (expiryRun first second now)
    ∃ writer written, machine.writer = some writer ∧
      ((writer.appendWith serde third).run [] machine.data.sessions).outcome =
        .returned (.ok (), written) ∧
      ∀ count, verifyChain serde dirPath
        (machine.step serde sorter (.appendEntry third)).data.sessions ≠ .ok count := by
  intro machine
  obtain ⟨writer, later, present, full, number, files⟩ :=
    expiryRun_leaves serde sorter firstFills secondFills old young
  have names : machine.data.sessions.names = [sessionName 2] := by
    rw [names, files]
    rfl
  have count : machine.data.sessions.fileCount = 1 := by
    rw [fileCount, names]
    decide
  have found : machine.data.sessions.find (sessionName 2) = some _ :=
    find_eq_some_iff.mpr ⟨by rw [files]; exact mem_cons_self, rfl⟩
  have opens := openAppend_of_find found third.now
  have run := append_rotates_run serde third machine.data.sessions full
  rw [count, opens] at run
  refine ⟨writer, _, present, run.1, ?_⟩
  intro total accepted
  have store : (machine.step serde sorter (.appendEntry third)).data.sessions = _ :=
    congrArg (fun after => after.data.sessions) (logStep_append present run.1)
  rw [store, run.2] at accepted
  obtain ⟨entries, parsed, linked, -⟩ := (verifyChain_ok_iff serde).mp accepted
  have whole : logEntries serde (machine.data.sessions.appendTo 1
      (entryLine serde (writer.entryFor serde third)) third.now) =
      some [later, writer.entryFor serde third] := by
    have contents := read_appendTo_same found
      (entryLine serde (writer.entryFor serde third)) third.now
    have lines := parseLines_render serde [later, writer.entryFor serde third]
    have sorted : sortedFiles [sessionName 2] = [sessionName 2] := by decide
    simp only [logEntries, names_appendTo, names, sorted, entriesOf, contents]
    simp only [render, flatMap_cons, flatMap_nil, append_nil] at lines
    simp [lines]
  obtain rfl := Option.some.inj (parsed.symm.trans whole)
  -- The first entry that is left carries number two.
  have one : later.seq = 1 := linked.1
  omega

def day : Int := 86400000000000

/-- `sort.Slice` as an insertion sort. -/
def insertionSlice : SortSlice where
  sort := List.insertionSort fun first second => first.mod ≤ second.mod
  perm := perm_insertionSort _
  sorted := fun entries => pairwise_insertionSort _ entries

/-- Files written on day 0 and on day 50; on day 100 the first has expired. -/
theorem expiryRun_breaks_log :
    let machine := (fresh [] [] []).after jsonSerde insertionSlice
      (expiryRun { bigAppend with now := 0 } { bigAppend with now := 50 * day } (100 * day))
    ∃ writer written, machine.writer = some writer ∧
      ((writer.appendWith jsonSerde sampleAppend).run [] machine.data.sessions).outcome =
        .returned (.ok (), written) ∧
      ∀ count, verifyChain jsonSerde "/data/sessions"
        (machine.step jsonSerde insertionSlice (.appendEntry sampleAppend)).data.sessions ≠
          .ok count :=
  expiryRun_rejected jsonSerde insertionSlice "/data/sessions" (bigAppend_fillsFile 0)
    (bigAppend_fillsFile (50 * day)) (by decide) (by decide) sampleAppend

end Expiry

def lapsedRun (args : AppendArgs Value) (now : Int) : List (MachineEvent Value) :=
  [.openLog args.now, .appendEntry args, .deleteExpired now "/data" 90, .openLog now,
    .appendEntry args]

theorem orderly_openLog (machine : Machine) (now : Int) :
    Orderly sorter machine (.openLog now : MachineEvent Value) :=
  ⟨by simp, fun _ _ _ _ _ _ _ due => due.elim⟩

theorem orderly_append_of_stays (args : AppendArgs Value)
    (stays : ∀ writer, machine.writer = some writer → writer.rotates = false) :
    Orderly sorter machine (.appendEntry args) := by
  refine ⟨?_, fun _ _ _ _ _ _ _ due => due.elim⟩
  rintro _ writer - present full
  rw [stays writer present] at full
  cases full

theorem stays_of_opened (none : machine.data.sessions.files = []) (now : Int)
    (writer : ProvenanceWriter)
    (present : (machine.logStep serde (.openLog now [])).writer = some writer) :
    writer.rotates = false := by
  have log : Log serde machine.data.sessions [] :=
    { names := by simp [names, none, firstNames]
      read := by simp
      linked := trivial
      filled := Or.inr (by simp) }
  obtain ⟨later, ⟨-, shape⟩, opened⟩ := log.open_spec now (by simp) []
  obtain ⟨front, last, split, -, size⟩ := (opened writer (opened_of_logStep present)).1.newest
  have empty : last = [] := by
    rcases shape with rfl | ⟨-, rfl⟩
    · simp at split
    · cases front <;> simp_all
  rw [ProvenanceWriter.rotates, size, empty]
  rfl

theorem lapsedRun_orderly (serde : SerdeJson Value) (sorter : SortSlice) (args : AppendArgs Value)
    (old : args.now < cutoff now 90) :
    (fresh [] [] []).Throughout serde sorter (Orderly sorter) (lapsedRun args now) := by
  let opened := (fresh [] [] []).step serde sorter (.openLog args.now)
  let appended := opened.step serde sorter (.appendEntry args)
  have allOld : ∀ file ∈ appended.data.sessions.files, file.mtime < cutoff now 90 := by
    have stepped : appended = _ := logStep_append_stays args rfl rfl
    rw [stepped]
    intro file member
    obtain ⟨original, inOpened, rfl⟩ := mem_map.mp member
    obtain rfl := mem_singleton.mp inOpened
    rw [appendFile]
    split
    · exact old
    · exact old
  have gone : (appended.step serde sorter (.deleteExpired now "/data" 90)).data.sessions.files =
      [] := by
    obtain ⟨⟨kept, sessions, keeps⟩, -⟩ := jobStep_deleteExpired serde sorter appended now "/data" 90
    rw [sessions, files_keep, filter_eq_nil_iff]
    intro file member isKept
    exact (keeps file member).mp isKept (allOld file member)
  refine ⟨orderly_openLog _ _, orderly_append_of_stays args ?_, ⟨by simp, ?_⟩,
    orderly_openLog _ _, orderly_append_of_stays args (stays_of_opened gone now), trivial⟩
  · rintro writer ⟨⟩
    rfl
  · intro first _ second member _ _ _ _
    exact allOld second member

/-- An entry of day 0 that is deleted on day 100. -/
theorem lapsedRun_verifies :
    (Machine.fresh [] [] []).Throughout jsonSerde insertionSlice (Orderly insertionSlice)
        (lapsedRun { sampleAppend with now := 0 } (100 * day)) ∧
      ∃ count, verifyChain jsonSerde "/data/sessions"
        ((fresh [] [] []).after jsonSerde insertionSlice
          (lapsedRun { sampleAppend with now := 0 } (100 * day))).data.sessions = .ok count :=
  have old : (0 : Int) < cutoff (100 * day) 90 := by decide
  have orderly := lapsedRun_orderly jsonSerde insertionSlice { sampleAppend with now := 0 } old
  ⟨orderly, orderly_run_verifies jsonSerde insertionSlice "/data/sessions" [] [] [] _ orderly⟩

section Cut

variable {α : Type} {size : α → Nat} {cap : Int} {file : α} {files : List α} {count : Nat}

/-- To remove the first `count` files brings the total size to the cap, and to remove fewer of them does not. A cap
below zero is never reached. -/
structure ShortestCut (size : α → Nat) (cap : Int) (files : List α) (count : Nat) : Prop where
  inside : count ≤ files.length
  fits : 0 ≤ cap → ((files.drop count).map size).sum ≤ cap
  needed : ∀ fewer < count, cap < ((files.drop fewer).map size).sum

theorem ShortestCut.nil : ShortestCut size cap [] 0 :=
  ⟨Nat.le_refl 0, id, fun _ few => absurd few (Nat.not_lt_zero _)⟩

theorem ShortestCut.zero (fits : (files.map size).sum ≤ cap) : ShortestCut size cap files 0 :=
  ⟨Nat.zero_le _, fun _ => fits, fun _ few => absurd few (Nat.not_lt_zero _)⟩

theorem ShortestCut.succ (above : cap < ((file :: files).map size).sum) (cut : ShortestCut size cap files count) :
    ShortestCut size cap (file :: files) (count + 1) where
  inside := Nat.succ_le_succ cut.inside
  fits := cut.fits
  needed fewer few := by
    cases fewer with
    | zero => exact above
    | succ fewer => exact cut.needed fewer (Nat.lt_of_succ_lt_succ few)

end Cut

theorem removeOldest_cut (maxSize : Nat) (files : List (String × Foundation.Bytes)) :
    ∃ count, ShortestCut (fun file => file.2.length) maxSize files count ∧
      Journal.removeOldest maxSize (Journal.totalSize files) files = files.drop count := by
  induction files with
  | nil => exact ⟨0, .nil, rfl⟩
  | cons file files ih =>
    rw [Journal.removeOldest]
    split
    · rename_i fits
      exact ⟨0, .zero (Int.ofNat_le.mpr fits), rfl⟩
    · rename_i above
      obtain ⟨count, cut, kept⟩ := ih
      have remaining : Journal.totalSize (file :: files) - file.2.length = Journal.totalSize files := by
        simp [Journal.totalSize]
      rw [remaining]
      exact ⟨count + 1, cut.succ (Int.ofNat_lt.mpr (Nat.lt_of_not_le above)), kept⟩

theorem trimLoop_cut (cap freed : Int) (entries : List FileEntry) :
    ∃ count, ShortestCut FileEntry.size cap entries count ∧
      trimLoop (fun _ => true) cap entries (totalSize entries) freed =
        (freed + totalSize (entries.take count), entries.take count) := by
  have total : ∀ entries : List FileEntry, totalSize entries = ((entries.map FileEntry.size).sum : Nat) := by
    intro entries
    induction entries with
    | nil => rfl
    | cons entry entries ih => simp_all [totalSize]
  induction entries generalizing freed with
  | nil => exact ⟨0, .nil, by simp [trimLoop, totalSize]⟩
  | cons entry entries ih =>
    rw [trimLoop]
    split
    · rename_i fits
      exact ⟨0, .zero (total _ ▸ fits), by simp [totalSize]⟩
    · rename_i above
      obtain ⟨count, cut, trimmed⟩ := ih (freed + entry.size)
      have remaining : totalSize (entry :: entries) - entry.size = totalSize entries := by
        simp [totalSize]
      refine ⟨count + 1, cut.succ (total _ ▸ Int.lt_of_not_ge above), ?_⟩
      rw [remaining, if_pos rfl, trimmed]
      simp [totalSize, Int.add_assoc]

/-- When all removals succeed, `enforceCap` removes the shortest run of files that are first by name that brings the
journal to its cap, and `trimOldestFiles` the shortest run of the oldest files; it returns what they held. -/
theorem caps_remove_shortest (writer : Journal.Writer) (sorter : SortSlice) (entries : List FileEntry)
    (distinct : entries.Pairwise fun first second => first.mod ≠ second.mod) (maxBytes : Int) :
    (∃ count, ShortestCut (fun file => file.2.length) writer.maxSize writer.dir.entries count ∧
      writer.enforceCap.dir.entries = writer.dir.entries.drop count) ∧
    (sorter.sort entries).Pairwise (fun first second => first.mod < second.mod) ∧
    ∃ count, ShortestCut FileEntry.size maxBytes (sorter.sort entries) count ∧
      trimOldestFiles sorter (fun _ => true) entries maxBytes =
        (totalSize ((sorter.sort entries).take count), (sorter.sort entries).take count) := by
  refine ⟨removeOldest_cut _ _, ?_, ?_⟩
  · have different := (Perm.pairwise_iff (fun apart => Ne.symm apart) (sorter.perm entries)).mpr distinct
    exact (sorter.sorted entries).imp₂ (fun _ _ earlier apart => lt_of_le_of_ne earlier apart) different
  · obtain ⟨count, cut, trimmed⟩ := trimLoop_cut maxBytes 0 (sorter.sort entries)
    rw [Int.zero_add] at trimmed
    exact ⟨count, cut, trimmed⟩

/-- A file without content, one that has to go, and the newest one. -/
def threeFiles : List FileEntry :=
  [⟨"b", 5, 2⟩, ⟨"a", 0, 1⟩, ⟨"c", 3, 3⟩]

theorem caps_remove_two :
    ∃ count, ShortestCut FileEntry.size 3 (insertionSlice.sort threeFiles) count ∧
      trimOldestFiles insertionSlice (fun _ => true) threeFiles 3 =
        (totalSize ((insertionSlice.sort threeFiles).take count), (insertionSlice.sort threeFiles).take count) :=
  (caps_remove_shortest (.new .empty 1) insertionSlice threeFiles (by decide) 3).2.2

end NuraOS.Retention
