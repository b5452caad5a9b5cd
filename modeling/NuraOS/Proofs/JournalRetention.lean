/-
Purpose: What a journal file holds, what survives the size cap, and what readers and followers get.
-/
import Mathlib.Algebra.Order.BigOperators.Group.List
import NuraOS.Journal.Journal

namespace NuraOS.Journal

open Foundation Foundation.Scanner List

def Record.Scannable (record : Record) : Prop :=
  ∀ body ∈ record.marshal, body.length < scanLimit

instance (record : Record) : Decidable record.Scannable :=
  inferInstanceAs (Decidable (∀ body ∈ record.marshal, body.length < scanLimit))

inductive Written : List Record → Bytes → Prop where
  | nil : Written [] []
  | cons {record : Record} {records : List Record} {line content : Bytes}
      (encoded : record.marshalNDJSON = some line) (rest : Written records content) :
      Written (record :: records) (line ++ content)

namespace Written

theorem append {first second : List Record} {front back : Bytes} (written : Written first front)
    (later : Written second back) : Written (first ++ second) (front ++ back) := by
  induction written with
  | nil => exact later
  | cons encoded rest ih =>
    rw [cons_append, append_assoc]
    exact .cons encoded ih

theorem singleton {record : Record} {line : Bytes} (encoded : record.marshalNDJSON = some line) :
    Written [record] line := by
  simpa using Written.cons encoded .nil

end Written

variable {record : Record} {body content : Bytes} {records : List Record} {filter : Filter}

theorem marshalNDJSON_eq_some {line : Bytes} (encoded : record.marshalNDJSON = some line) :
    ∃ body, record.marshal = some body ∧ line = body ++ [newline] := by
  obtain ⟨body, marshalled, rfl⟩ := Option.map_eq_some_iff.mp encoded
  exact ⟨body, marshalled, rfl⟩

theorem dropReturn_marshal (encoded : record.marshal = some body) : dropReturn body = body := by
  obtain ⟨front, rfl⟩ := marshal_concat encoded
  rw [dropReturn, getLast?_concat, if_neg (by decide)]

theorem decodeMatching_marshal (filter : Filter) (encoded : record.marshal = some body) :
    decodeMatching filter body = (some record.stored).filter filter.matches := by
  obtain ⟨front, shape⟩ := marshal_concat encoded
  rw [decodeMatching, if_neg (by simp [shape]), unmarshalNDJSON_marshal encoded]

/-- A file without a line over the limit is scanned to its end, and gives the matching records. -/
theorem scan_written (written : Written records content)
    (short : ∀ record ∈ records, record.Scannable) (filter : Filter) :
    (scan true content).ending = .eof ∧
      (scan true content).tokens.filterMap (decodeMatching filter) =
        (records.map Record.stored).filter filter.matches := by
  induction written with
  | nil => exact ⟨rfl, rfl⟩
  | @cons record records line content encoded rest ih =>
    obtain ⟨first, others⟩ := forall_mem_cons.mp short
    obtain ⟨body, marshalled, rfl⟩ := marshalNDJSON_eq_some encoded
    obtain ⟨ends, tokens⟩ := ih others
    rw [append_assoc, singleton_append,
      scan_line (newline_not_mem_marshal marshalled) (first body marshalled),
      dropReturn_marshal marshalled]
    refine ⟨ends, ?_⟩
    rw [Scan.cons, filterMap_cons, decodeMatching_marshal filter marshalled, tokens,
      map_cons, filter_cons]
    cases matching : filter.matches record.stored <;> simp [Option.filter, matching]

theorem scan_written_tooLong (written : Written records content)
    (long : ∃ record ∈ records, ¬ record.Scannable) : (scan true content).ending = .tooLong := by
  induction written with
  | nil => simp at long
  | @cons record records line content encoded rest ih =>
    obtain ⟨body, marshalled, rfl⟩ := marshalNDJSON_eq_some encoded
    have absent := newline_not_mem_marshal marshalled
    rw [append_assoc, singleton_append]
    by_cases first : body.length < scanLimit
    · rw [scan_line absent first]
      apply ih
      obtain ⟨other, member, notShort⟩ := long
      rcases mem_cons.mp member with rfl | later
      · refine absurd (fun found same => ?_) notShort
        rw [Option.mem_def, marshalled] at same
        cases same
        exact first
      · exact ⟨other, later, notShort⟩
    · rw [scan_tooLong absent (Nat.le_of_not_lt first)]

theorem reached_unlimited (unlimited : filter.limit = 0) (results : List Record) :
    filter.reached results = false := by
  simp [Filter.reached, unlimited]

theorem scanTokens_unlimited (unlimited : filter.limit = 0) (results : List Record)
    (lines : List Bytes) :
    scanTokens filter results lines = (results ++ lines.filterMap (decodeMatching filter), false) := by
  induction lines generalizing results with
  | nil => simp [scanTokens]
  | cons line lines ih =>
    rw [scanTokens]
    cases decoded : decodeMatching filter line with
    | none => simp [ih, decoded]
    | some record =>
      simp [reached_unlimited unlimited, ih, decoded]

theorem scanFile_unlimited (unlimited : filter.limit = 0) (content : Bytes) :
    scanFile filter content =
      if (scan true content).ending = .tooLong then none
      else some ((scan true content).tokens.filterMap (decodeMatching filter)) := by
  simp [scanFile, scanTokens_unlimited unlimited]

theorem queryFiles_unlimited (unlimited : filter.limit = 0)
    (results : List Record) (files : List (String × Bytes)) :
    queryFiles filter results files =
      results ++ files.flatMap fun file => (scanFile filter file.2).getD [] := by
  induction files generalizing results with
  | nil => simp [queryFiles]
  | cons file files ih =>
    rw [queryFiles]
    cases scanned : scanFile filter file.2 with
    | none => simp [ih, scanned]
    | some records =>
      simp [reached_unlimited unlimited, ih, scanned]

def everything : Filter := { minPriority := .debug }

theorem query_everything (dir : Directory) :
    query dir everything = dir.entries.flatMap fun file => (scanFile everything file.2).getD [] := by
  rw [query, if_neg (by decide), queryFiles_unlimited rfl, nil_append]

open Foundation.SortedMap

theorem mem_removeOldest {maxSize : Nat} {files : List (String × Bytes)}
    (sorted : files.Pairwise fun first second => first.1 < second.1) (file : String × Bytes) :
    file ∈ removeOldest maxSize (totalSize files) files ↔
      file ∈ files ∧ totalSize (files.filter fun other => file.1 ≤ other.1) ≤ maxSize := by
  induction files with
  | nil => simp [removeOldest]
  | cons first files ih =>
    obtain ⟨least, rest⟩ := pairwise_cons.mp sorted
    rw [removeOldest]
    split
    · rename_i fits
      refine ⟨fun member => ⟨member, ?_⟩, And.left⟩
      exact ((filter_sublist.map _).sum_le_sum fun _ _ => Nat.zero_le _).trans fits
    · rename_i overflows
      have remaining : totalSize (first :: files) - first.2.length = totalSize files := by
        simp [totalSize]
      rw [remaining, ih rest, mem_cons]
      constructor
      · rintro ⟨member, fits⟩
        have skipped : ¬ file.1 ≤ first.1 := not_le.mpr (least file member)
        exact ⟨.inr member, by simpa [filter_cons, skipped] using fits⟩
      · rintro ⟨rfl | member, fits⟩
        · have all : (file :: files).filter (fun other => file.1 ≤ other.1) = file :: files := by
            refine filter_eq_self.mpr fun other member => ?_
            rcases mem_cons.mp member with rfl | later
            · simp
            · simpa using (least other later).le
          rw [all] at fits
          exact absurd fits overflows
        · have skipped : ¬ file.1 ≤ first.1 := not_le.mpr (least file member)
          exact ⟨member, by simpa [filter_cons, skipped] using fits⟩

variable {writer : Writer} {content : Bytes} {records : List Record}

theorem lookup_enforceCap {name : String} :
    writer.enforceCap.dir.lookup name = some content ↔
      writer.dir.lookup name = some content ∧
        writer.dir.weightFrom List.length name ≤ writer.maxSize := by
  rw [SortedMap.lookup_eq_some_iff, SortedMap.lookup_eq_some_iff]
  exact mem_removeOldest writer.dir.sorted (name, content)

theorem enforceCap_of_fits (fits : totalSize writer.dir.entries ≤ writer.maxSize) (file : writer.file = some .linked)
    (found : writer.dir.lookup writer.today = some content) : writer.enforceCap = writer := by
  have kept : removeOldest writer.maxSize (totalSize writer.dir.entries) writer.dir.entries =
      writer.dir.entries := by
    cases shape : writer.dir.entries with
    | nil => rfl
    | cons first files =>
      rw [shape] at fits
      rw [removeOldest, if_pos fits]
  have same : writer.enforceCap.dir = writer.dir := SortedMap.ext kept
  have linked : writer.enforceCap.file = some .linked := by
    simp only [Writer.enforceCap] at same ⊢
    rw [same, file, found]
    rfl
  have fields : writer.enforceCap =
      { writer with dir := writer.enforceCap.dir, file := writer.enforceCap.file } := rfl
  rw [fields, same, linked, ← file]

namespace Writer

def Stale (writer : Writer) (time : Timestamp) : Prop :=
  writer.today = dayFile time ∧ writer.file = some .unlinked

instance (writer : Writer) (time : Timestamp) : Decidable (writer.Stale time) :=
  inferInstanceAs (Decidable (_ ∧ _))

/-- The writer `after` differs from `before` by the line at the end of the day's file. -/
structure Appended (before after : Writer) (time : Timestamp) (line : Bytes) : Prop where
  file : after.file = some .linked
  today : after.today = dayFile time
  maxSize : after.maxSize = before.maxSize
  limiter : after.limiter = before.limiter
  same : after.dir.lookup (dayFile time) =
    some ((before.dir.lookup (dayFile time)).getD [] ++ line)
  others : ∀ name, name ≠ dayFile time → after.dir.lookup name = before.dir.lookup name
  weight : after.dir.weightFrom List.length (dayFile time) =
    before.dir.weightFrom List.length (dayFile time) + line.length

variable {writer : Writer} {time : Timestamp}

theorem append_of_stale (stale : writer.Stale time)
    (line : Bytes) : (writer.ensureFile time).appendLine line = writer := by
  have kept : writer.ensureFile time = writer := by
    rw [ensureFile, if_pos ⟨stale.1, by simp [stale.2]⟩]
  rw [kept, appendLine, stale.2]

theorem appended_alter (writer : Writer) (time : Timestamp) (line : Bytes) :
    Appended writer
      { writer with
        dir := writer.dir.alter (dayFile time) fun old => old.getD [] ++ line
        file := some .linked
        today := dayFile time } time line := by
  have grown : ∀ old : Option Bytes, (old.getD [] ++ line).length = old.elim 0 List.length + line.length := by
    intro old
    cases old <;> simp
  exact
    { file := rfl
      today := rfl
      maxSize := rfl
      limiter := rfl
      same := lookup_alter_self _ _ _
      others := fun name different => lookup_alter_of_ne _ different _
      weight := weightFrom_alter grown _ _ }

@[simp] theorem file_appendLine (writer : Writer) (line : Bytes) : (writer.appendLine line).file = writer.file := by
  unfold appendLine
  split <;> simp [*]

@[simp] theorem today_appendLine (writer : Writer) (line : Bytes) : (writer.appendLine line).today = writer.today := by
  unfold appendLine
  split <;> rfl

theorem append_of_linked (today : writer.today = dayFile time) (file : writer.file = some .linked)
    (line : Bytes) : Appended writer (writer.appendLine line) time line := by
  rw [appendLine, file, today]
  simpa only [← today, ← file] using appended_alter writer time line

theorem append_of_fresh (fresh : ¬ writer.Stale time)
    (line : Bytes) : Appended writer ((writer.ensureFile time).appendLine line) time line := by
  rw [ensureFile]
  split
  · rename_i current
    cases handle : writer.file with
    | none => exact absurd handle current.2
    | some linkage =>
      cases linkage with
      | linked => exact append_of_linked current.1 handle line
      | unlinked => exact absurd ⟨current.1, handle⟩ fresh
  · simp only [appendLine, alter_alter]
    exact appended_alter writer time line

theorem write_eq_some {after : Writer} {now : Int} {record : Record}
    (noLimiter : writer.limiter = none) (written : writer.write now record = some after) :
    ∃ line, record.marshalNDJSON = some line ∧ after = writer.store record.time line := by
  obtain ⟨line, encoded, rfl⟩ := Option.map_eq_some_iff.mp written
  exact ⟨line, encoded, by rw [noLimiter]; rfl⟩

end Writer

/-- What holds of a writer without a limiter at any time: files hold records of their day, and the open
file is in the directory unless it has been removed. -/
structure Writer.Sound (writer : Writer) : Prop where
  limiter : writer.limiter = none
  files : ∀ name content, writer.dir.lookup name = some content →
    ∃ records, Written records content ∧ ∀ record ∈ records, dayFile record.time = name
  linked : writer.file = some .linked → writer.dir.lookup writer.today ≠ none
  unlinked : writer.file = some .unlinked → writer.dir.lookup writer.today = none

namespace Writer.Sound

variable {writer : Writer}

theorem new (maxSize : Int) {dir : Directory}
    (files : ∀ name content, dir.lookup name = some content →
      ∃ records, Written records content ∧ ∀ record ∈ records, dayFile record.time = name) :
    (Writer.new dir maxSize).Sound :=
  { limiter := rfl
    files := files
    linked := fun linked => by cases linked
    unlinked := fun unlinked => by cases unlinked }

theorem close (sound : writer.Sound) : writer.close.Sound :=
  { limiter := sound.limiter
    files := sound.files
    linked := fun linked => by cases linked
    unlinked := fun unlinked => by cases unlinked }

theorem day_records (sound : writer.Sound) (name : String) :
    ∃ records, Written records ((writer.dir.lookup name).getD []) ∧
      ∀ record ∈ records, dayFile record.time = name := by
  cases found : writer.dir.lookup name with
  | none => exact ⟨[], .nil, by simp⟩
  | some content => exact sound.files name content found

theorem append (sound : writer.Sound) {record : Record} {line : Bytes}
    (encoded : record.marshalNDJSON = some line) :
    ((writer.ensureFile record.time).appendLine line).Sound := by
  by_cases stale : writer.Stale record.time
  · rw [append_of_stale stale]
    exact sound
  · have appended := append_of_fresh stale line
    refine ⟨appended.limiter.trans sound.limiter, ?_, ?_, ?_⟩
    · intro name content found
      by_cases day : name = dayFile record.time
      · subst day
        rw [appended.same, Option.some.injEq] at found
        obtain ⟨records, written, days⟩ := sound.day_records (dayFile record.time)
        refine ⟨records ++ [record], found ▸ written.append (.singleton encoded), ?_⟩
        intro other member
        rcases mem_append.mp member with old | new
        · exact days other old
        · rw [mem_singleton.mp new]
      · rw [appended.others name day] at found
        exact sound.files name content found
    · intro
      rw [appended.today, appended.same]
      simp
    · intro unlinked
      rw [appended.file] at unlinked
      cases unlinked

theorem enforceCap (sound : writer.Sound) : writer.enforceCap.Sound := by
  refine ⟨sound.limiter, fun name content found => ?_, ?_, ?_⟩
  · exact sound.files name content (lookup_enforceCap.mp found).1
  · intro linked gone
    simp only [Writer.enforceCap] at linked gone
    split at linked
    · rw [gone] at linked
      simp at linked
    · rename_i other
      exact other linked
  · intro unlinked
    have old : writer.enforceCap.today = writer.today := rfl
    rw [old]
    by_contra present
    obtain ⟨content, found⟩ := Option.ne_none_iff_exists'.mp present
    have before := (lookup_enforceCap.mp found).1
    cases handle : writer.file with
    | none => simp [Writer.enforceCap, handle] at unlinked
    | some linkage =>
      cases linkage with
      | linked =>
        simp only [Writer.enforceCap, handle] at unlinked found
        rw [found] at unlinked
        simp at unlinked
      | unlinked => simp [sound.unlinked handle] at before

theorem call (sound : writer.Sound) (call : Call) : (writer.call call).Sound := by
  cases call with
  | write now record =>
    rw [Writer.call]
    cases written : writer.write now record with
    | none => exact sound
    | some after =>
      obtain ⟨line, encoded, rfl⟩ := write_eq_some sound.limiter written
      exact (sound.append encoded).enforceCap
  | close => exact sound.close
  | reopen maxSize => exact new maxSize sound.files

theorem calls (sound : writer.Sound) (calls : List Call) : (calls.foldl Writer.call writer).Sound := by
  induction calls generalizing writer with
  | nil => exact sound
  | cons call calls ih => exact ih (sound.call call)

end Writer.Sound

theorem matches_everything {record : Record} :
    everything.matches record = true ↔ record.pri.level ≤ Priority.debug.level := by
  have only : everything.matches record = !decide (Priority.debug.level < record.pri.level) := by
    simp [Filter.matches, everything, isZero]
    rfl
  rw [only, Bool.not_eq_true', decide_eq_false_iff_not, Int64.not_lt]

theorem mem_scanFile (written : Written records content) (record : Record) :
    record ∈ (scanFile everything content).getD [] ↔
      (∀ old ∈ records, old.Scannable) ∧ (∃ old ∈ records, old.stored = record) ∧
        everything.matches record = true := by
  rw [scanFile_unlimited rfl]
  by_cases short : ∀ old ∈ records, old.Scannable
  · obtain ⟨ends, tokens⟩ := scan_written written short everything
    rw [if_neg (by simp [ends]), Option.getD_some, tokens, mem_filter, mem_map]
    exact ⟨fun found => ⟨short, found⟩, And.right⟩
  · have long : ∃ old ∈ records, ¬ old.Scannable := by simpa using short
    simp [scan_written_tooLong written long, short]

theorem Writer.Sound.mem_query (sound : writer.Sound) (record : Record) :
    record ∈ query writer.dir everything ↔
      ∃ content records, writer.dir.lookup (dayFile record.time) = some content ∧
        Written records content ∧ (∀ old ∈ records, old.Scannable) ∧
        (∃ old ∈ records, old.stored = record) ∧ everything.matches record = true := by
  rw [query_everything, mem_flatMap]
  constructor
  · rintro ⟨⟨name, content⟩, member, found⟩
    have present := lookup_eq_some_iff.mpr member
    obtain ⟨records, written, days⟩ := sound.files name content present
    have facts := (mem_scanFile written record).mp found
    obtain ⟨old, inFile, same⟩ := facts.2.1
    have day : dayFile record.time = name := by rw [← same, ← days old inFile]; rfl
    exact ⟨content, records, by rw [day]; exact present, written, facts⟩
  · rintro ⟨content, records, present, written, facts⟩
    exact ⟨(_, content), lookup_eq_some_iff.mp present, (mem_scanFile written record).mpr facts⟩

/-! ### The record just written -/

/-- When a record outlives the call of `Write` that stores its line. -/
structure Durable (writer : Writer) (record : Record) (line : Bytes) : Prop where
  /-- The open file has not been removed under the writer. -/
  linked : ¬ writer.Stale record.time
  /-- With the line, the files from its day on fit under the cap. -/
  room : writer.dir.weightFrom List.length (dayFile record.time) + line.length ≤ writer.maxSize
  /-- The day's file has no line over the limit yet. -/
  scans : ∀ content, writer.dir.lookup (dayFile record.time) = some content →
    (scan true content).ending ≠ .tooLong
  level : record.pri.level ≤ Priority.debug.level
  service : ∃ text, record.service = utf8 text
  message : ∃ text, record.message = utf8 text

theorem scans_iff (written : Written records content) :
    (scan true content).ending ≠ .tooLong ↔ ∀ record ∈ records, record.Scannable := by
  constructor
  · intro scans record member
    by_contra long
    exact scans (scan_written_tooLong written ⟨record, member, long⟩)
  · intro short
    simp [(scan_written written short everything).1]

namespace Writer.Sound

variable {writer : Writer} {record : Record} {line : Bytes}

theorem durable_of_found (sound : writer.Sound) (encoded : record.marshalNDJSON = some line)
    (found : record ∈ query (writer.store record.time line).dir everything) :
    Durable writer record line := by
  obtain ⟨content, records, kept, lines, scannable, ⟨old, -, same⟩, matched⟩ :=
    ((sound.append encoded).enforceCap.mem_query record).mp found
  obtain ⟨present, room⟩ := lookup_enforceCap.mp kept
  have linked : ¬ writer.Stale record.time := by
    intro stale
    have gone := sound.unlinked stale.2
    rw [append_of_stale stale, ← stale.1, gone] at present
    cases present
  have appended := append_of_fresh linked line
  have repaired : record.stored = record := by simp [← same, Record.stored]
  obtain ⟨service, message⟩ := Record.stored_eq_self_iff.mp repaired
  refine ⟨linked, ?_, ?_, matches_everything.mp matched, service, message⟩
  · rwa [appended.weight, appended.maxSize] at room
  · intro before foundBefore
    obtain ⟨earlier, linesBefore, -⟩ := sound.files _ _ foundBefore
    have whole : content = before ++ line := by
      have same := present.symm.trans appended.same
      simpa [foundBefore] using same
    have all := (scans_iff (linesBefore.append (.singleton encoded))).mp
      (whole ▸ (scans_iff lines).mpr scannable)
    exact (scans_iff linesBefore).mpr fun other member => all other (mem_append_left _ member)

theorem found_of_durable (sound : writer.Sound) (encoded : record.marshalNDJSON = some line)
    (short : record.Scannable) (durable : Durable writer record line) :
    record ∈ query (writer.store record.time line).dir everything := by
  have appended := append_of_fresh durable.linked line
  obtain ⟨records, lines, -⟩ := sound.day_records (dayFile record.time)
  have scannable : ∀ other ∈ records, other.Scannable := by
    apply (scans_iff lines).mp
    cases found : writer.dir.lookup (dayFile record.time) with
    | none => decide
    | some content => exact durable.scans content found
  refine ((sound.append encoded).enforceCap.mem_query record).mpr
    ⟨_, records ++ [record], lookup_enforceCap.mpr ⟨appended.same, ?_⟩,
      lines.append (.singleton encoded), ?_, ⟨record, by simp, ?_⟩,
      matches_everything.mpr durable.level⟩
  · rw [appended.weight, appended.maxSize]
    exact durable.room
  · intro other member
    rcases mem_append.mp member with old | new
    · exact scannable other old
    · rw [mem_singleton.mp new]
      exact short
  · exact Record.stored_eq_self_iff.mpr ⟨durable.service, durable.message⟩

end Writer.Sound

/-- In every run of a journal directory, a record under the limit of the scanner is found right after it
has been written exactly when it is durable there. -/
theorem write_durable_iff (maxSize : Int) (calls : List Call) (now : Int) (record : Record)
    (line : Bytes) (after : Writer) (encoded : record.marshalNDJSON = some line)
    (short : record.Scannable)
    (written : (calls.foldl Writer.call (Writer.new .empty maxSize)).write now record = some after) :
    record ∈ query after.dir everything ↔
      Durable (calls.foldl Writer.call (Writer.new .empty maxSize)) record line := by
  have sound : (calls.foldl Writer.call (Writer.new .empty maxSize)).Sound :=
    (Writer.Sound.new maxSize fun name content found => by simp at found).calls calls
  obtain ⟨stored, marshalled, rfl⟩ := Writer.write_eq_some sound.limiter written
  obtain rfl : line = stored := Option.some.inj (encoded.symm.trans marshalled)
  exact ⟨sound.durable_of_found encoded, sound.found_of_durable encoded short⟩

def sampleRecord : Record where
  time :=
    { date := { year := 2025, month := 3, day := 1 }
      hour := 12, minute := 0, second := 0, nanos := 0, zone := 0
      validDate := by decide
      validTime := by decide }
  service := utf8 "gateway"
  pid := 100
  pri := .info
  message := utf8 "started"

def sampleLine : Bytes :=
  sampleRecord.marshalNDJSON.getD []

def oneWritten : Writer :=
  [Call.write 0 sampleRecord].foldl Writer.call (Writer.new .empty 256)

/-- The second record under a cap of 256 bytes is durable. -/
theorem second_write_found :
    ∃ after, oneWritten.write 0 sampleRecord = some after ∧ sampleRecord ∈ query after.dir everything := by
  obtain ⟨after, written⟩ := Option.isSome_iff_exists.mp
    (show (oneWritten.write 0 sampleRecord).isSome by decide +kernel)
  have scans : (oneWritten.dir.lookup (dayFile sampleRecord.time)).all
      (fun content => (scan true content).ending ≠ .tooLong) = true := by decide +kernel
  refine ⟨after, written, ?_⟩
  exact (write_durable_iff 256 [.write 0 sampleRecord] 0 sampleRecord sampleLine after (by decide +kernel)
    (by decide +kernel) written).mpr
    { linked := by decide +kernel
      room := by decide +kernel
      scans := fun content found => by simpa [show oneWritten.dir.lookup _ = _ from found] using scans
      level := by decide
      service := ⟨"gateway", rfl⟩
      message := ⟨"started", rfl⟩ }

/-- The fourth record of the day takes the day's file over the cap, and the file goes with it. -/
theorem fourth_write_lost :
    sampleRecord.Scannable ∧
      (((List.replicate 3 (.write 0 sampleRecord)).foldl Writer.call
        (Writer.new .empty 256)).write 0 sampleRecord).map (fun after => query after.dir everything) =
          some [] := by
  decide +kernel

open Foundation.GoJson

def inputLines (input : Bytes) : List Bytes :=
  ((input.splitOn newline).map dropReturn).filter (· ≠ [])

def collected (source : Source) : Nat → List Bytes → List Record
  | _, [] => []
  | reading, line :: lines =>
    if line = [] then collected source reading lines
    else source.record reading line :: collected source (reading + 1) lines

def storedSize (records : List Record) : Nat :=
  (records.map fun record => (record.marshalNDJSON.getD []).length).sum

theorem collected_filter (source : Source) (reading : Nat) (lines : List Bytes) :
    collected source reading (lines.filter (· ≠ [])) = collected source reading lines := by
  induction lines generalizing reading with
  | nil => rfl
  | cons line lines ih =>
    by_cases empty : line = []
    · simpa [filter_cons, empty, collected] using ih reading
    · simpa [filter_cons, empty, collected] using ih (reading + 1)

theorem messages_collected (source : Source) (reading : Nat) (lines : List Bytes) :
    (collected source reading lines).map Record.message = lines.filter (· ≠ []) := by
  induction lines generalizing reading with
  | nil => rfl
  | cons line lines ih =>
    by_cases empty : line = []
    · simpa [filter_cons, empty, collected] using ih reading
    · simpa [filter_cons, empty, collected, Source.record] using
        ih (reading + 1)

variable {source : Source} {records : List Record} {writer : Writer}

theorem pri_of_mem_collected {reading : Nat} {lines : List Bytes} {record : Record}
    (member : record ∈ collected source reading lines) : record.pri = source.pri := by
  induction lines generalizing reading with
  | nil => cases member
  | cons line lines ih =>
    rw [collected] at member
    split at member
    · exact ih member
    · rcases mem_cons.mp member with rfl | later
      · rfl
      · exact ih later

theorem Written.length_eq {content : Bytes}
    (written : Written records content) : content.length = storedSize records := by
  induction written with
  | nil => rfl
  | cons encoded rest ih =>
    simp [storedSize, encoded, ih]

/-! ### Collecting within a day -/

/-- Every reading of the clock falls on this day, in UTC, and can be encoded. -/
structure OneDay (source : Source) (date : Date) : Prop where
  utc : ∀ reading, (source.clock reading).1.zone = 0
  day : ∀ reading, (source.clock reading).1.date = date
  year : 0 ≤ date.year ∧ date.year ≤ 9999

def dateFile (date : Date) : String :=
  String.ofList date.print ++ ".journal"

namespace OneDay

variable {source : Source} {date : Date}

theorem dayFile_eq (oneDay : OneDay source date) (reading : Nat) (line : Bytes) :
    dayFile (source.record reading line).time = dateFile date := by
  have time := (source.clock reading).1.validTime
  have utc : (source.clock reading).1.utcDate = date := by
    rw [Timestamp.utcDate, oneDay.utc reading]
    rw [if_neg (by omega), if_neg (by omega), oneDay.day reading]
  rw [dayFile, Source.record, utc, dateFile]

theorem encodes (oneDay : OneDay source date) (reading : Nat) (line : Bytes) :
    ∃ bytes, (source.record reading line).marshalNDJSON = some bytes := by
  have range : 0 ≤ (source.clock reading).1.date.year ∧ (source.clock reading).1.date.year ≤ 9999 ∧
      (source.clock reading).1.zone.natAbs < 1440 := by
    rw [oneDay.day reading, oneDay.utc reading]
    exact ⟨oneDay.year.1, oneDay.year.2, by decide⟩
  simp [Record.marshalNDJSON, Record.marshal, Source.record, Timestamp.marshal, range]

end OneDay

/-- A writer that has written these records and nothing else, all to one file. -/
structure Collecting (writer : Writer) (name : String) (records : List Record) : Prop where
  limiter : writer.limiter = none
  files : (records = [] ∧ writer.dir.entries = [] ∧ writer.file = none) ∨
    ∃ content, Written records content ∧ writer.dir.entries = [(name, content)] ∧
      writer.file = some .linked ∧ writer.today = name

namespace Collecting

variable {writer : Writer} {name : String} {records : List Record}

theorem new (maxSize : Int) (name : String) : Collecting (Writer.new .empty maxSize) name [] :=
  { limiter := rfl
    files := .inl ⟨rfl, rfl, rfl⟩ }

theorem enforceCap (limiter : writer.limiter = none) {content : Bytes}
    (written : Written records content) (entries : writer.dir.entries = [(name, content)])
    (file : writer.file = some .linked) (today : writer.today = name)
    (fits : content.length ≤ writer.maxSize) : Collecting writer.enforceCap name records := by
  have small : totalSize writer.dir.entries ≤ writer.maxSize := by
    simpa [entries, totalSize] using fits
  have found : writer.dir.lookup writer.today = some content := by
    rw [SortedMap.lookup_eq_some_iff, entries, today]
    exact mem_singleton_self _
  rw [enforceCap_of_fits small file found]
  exact { limiter := limiter, files := .inr ⟨content, written, entries, file, today⟩ }

theorem store (collecting : Collecting writer name records) {record : Record} {line : Bytes}
    (encoded : record.marshalNDJSON = some line) (day : dayFile record.time = name)
    (fits : storedSize (records ++ [record]) ≤ writer.maxSize) :
    Collecting (writer.store record.time line) name (records ++ [record]) := by
  rw [Writer.store]
  rcases collecting.files with ⟨rfl, entries, file⟩ | ⟨content, written, entries, file, today⟩
  · -- The first record creates the file.
    have created : (writer.ensureFile record.time).appendLine line =
        { writer with
          dir := (writer.dir.alter name fun old => old.getD []).alter name fun old => old.getD [] ++ line
          file := some .linked
          today := name } := by
      rw [Writer.ensureFile, if_neg (by simp [file]), day]
      rfl
    have lines := Written.singleton encoded
    rw [created]
    refine enforceCap collecting.limiter lines ?_ rfl rfl (lines.length_eq ▸ fits)
    simp [SortedMap.alter, entries, alterEntries]
  · have appended : (writer.ensureFile record.time).appendLine line =
        { writer with dir := writer.dir.alter name fun old => old.getD [] ++ line } := by
      rw [Writer.ensureFile, if_pos ⟨today.trans day.symm, by simp [file]⟩, Writer.appendLine, file,
        today]
    have lines := written.append (.singleton encoded)
    rw [appended]
    refine enforceCap collecting.limiter lines ?_ file today (lines.length_eq ▸ fits)
    simp [SortedMap.alter, entries, alterEntries]

end Collecting

theorem maxSize_store (writer : Writer) (time : Timestamp) (line : Bytes) :
    (writer.store time line).maxSize = writer.maxSize := by
  by_cases stale : writer.Stale time
  · rw [Writer.store, Writer.append_of_stale stale]
    rfl
  · exact (Writer.append_of_fresh stale line).maxSize

theorem Collecting.lines {date : Date} (oneDay : OneDay source date) (reading : Nat) (lines : List Bytes)
    (collecting : Collecting writer (dateFile date) records)
    (fits : storedSize (records ++ collected source reading lines) ≤ writer.maxSize) :
    Collecting (collectLines source reading writer lines) (dateFile date)
      (records ++ collected source reading lines) := by
  induction lines generalizing reading writer records with
  | nil => simpa [collected, collectLines] using collecting
  | cons line lines ih =>
    rw [collected] at fits ⊢
    rw [collectLines]
    split
    · rename_i empty
      rw [if_pos empty] at fits
      exact ih reading collecting fits
    · rename_i nonempty
      rw [if_neg nonempty, append_cons] at fits
      rw [append_cons]
      obtain ⟨bytes, encoded⟩ := oneDay.encodes reading line
      have stored : writer.call (.write (source.clock reading).2 (source.record reading line)) =
          writer.store (source.record reading line).time bytes := by
        rw [Writer.call, Writer.write, encoded, collecting.limiter]
        rfl
      have first : storedSize (records ++ [source.record reading line]) ≤ writer.maxSize := by
        refine Nat.le_trans ?_ fits
        simp [storedSize]
      rw [stored]
      refine ih (reading + 1)
        (collecting.store encoded (oneDay.dayFile_eq reading line) first) ?_
      rw [maxSize_store]
      exact fits

/-! ### Reading back -/

theorem Collecting.query_eq {name : String} (collecting : Collecting writer name records)
    (levels : ∀ record ∈ records, record.pri.level ≤ Priority.debug.level) :
    query writer.dir everything =
      if ∀ record ∈ records, record.Scannable then records.map Record.stored else [] := by
  rw [query_everything]
  rcases collecting.files with ⟨rfl, entries, -⟩ | ⟨content, written, entries, -, -⟩
  · simp [entries]
  · rw [entries, flatMap_singleton, scanFile_unlimited rfl]
    by_cases short : ∀ record ∈ records, record.Scannable
    · obtain ⟨ends, tokens⟩ := scan_written written short everything
      rw [if_pos short, if_neg (by simp [ends]), Option.getD_some, tokens, filter_eq_self]
      intro found member
      obtain ⟨record, inFile, rfl⟩ := mem_map.mp member
      exact matches_everything.mpr (levels record inFile)
    · rw [if_neg short, if_pos (scan_written_tooLong written (by simpa using short))]
      rfl

/-- A stream collected within one day, under the cap, is consumed to its end and read back line by line
exactly when no line of it and no stored line is over the limit, and its text is UTF-8. -/
theorem collect_reads_back_iff (source : Source) (date : Date) (maxSize : Int) (input : Bytes)
    (oneDay : OneDay source date) (level : source.pri.level ≤ Priority.debug.level)
    (fits : storedSize (collected source 0 (inputLines input)) ≤ (Writer.new .empty maxSize).maxSize) :
    ((collect source (Writer.new .empty maxSize) input).2 = .eof ∧
        (query (collect source (Writer.new .empty maxSize) input).1.dir everything).map
          Record.message = inputLines input) ↔
      (∀ line ∈ input.splitOn newline, line.length < scanLimit) ∧
        (∀ record ∈ collected source 0 (inputLines input), record.Scannable) ∧
        ∀ line ∈ inputLines input, ∃ text, line = utf8 text := by
  by_cases short : ∀ line ∈ input.splitOn newline, line.length < scanLimit
  · obtain ⟨ends, tokens⟩ := scan_closed_short short
    have same : collected source 0 (scan true input).tokens = collected source 0 (inputLines input) := by
      rw [inputLines, ← tokens, collected_filter]
    have messages : (collected source 0 (inputLines input)).map Record.message = inputLines input := by
      rw [messages_collected, inputLines, filter_filter]
      simp
    have collecting := (Collecting.new maxSize (dateFile date)).lines oneDay 0
      (scan true input).tokens (by rw [nil_append, same]; exact fits)
    rw [nil_append, same] at collecting
    have found := collecting.query_eq fun record member => by
      rw [pri_of_mem_collected member]
      exact level
    simp only [collect, ends, true_and, found]
    by_cases scannable : ∀ record ∈ collected source 0 (inputLines input), record.Scannable
    · have repaired : (collected source 0 (inputLines input)).map (Record.message ∘ Record.stored) =
          (inputLines input).map fun line => utf8 (toText line) := by
        conv_rhs => rw [← messages, map_map]
        rfl
      rw [if_pos scannable, map_map, repaired]
      simp only [← utf8_toText_eq_iff]
      constructor
      · intro same
        exact ⟨short, scannable, map_inj_left.mp (same.trans (map_id _).symm)⟩
      · rintro ⟨-, -, kept⟩
        exact (map_congr_left kept).trans (map_id _)
    · rw [if_neg scannable, map_nil]
      constructor
      · intro empty
        rw [← empty] at scannable
        simp [collected] at scannable
      · rintro ⟨-, all, -⟩
        exact absurd all scannable
  · have long : ∃ line ∈ input.splitOn newline, scanLimit ≤ line.length := by simpa using short
    constructor
    · rintro ⟨ends, -⟩
      rw [collect, scan_closed_long long] at ends
      cases ends
    · rintro ⟨all, -⟩
      exact absurd all short

def sampleSource : Source where
  service := utf8 "gateway"
  pid := 100
  pri := .info
  clock _ := (sampleRecord.time, 0)

theorem sampleSource_oneDay : OneDay sampleSource { year := 2025, month := 3, day := 1 } :=
  { utc := fun _ => rfl
    day := fun _ => rfl
    year := by decide }

theorem inputLines_sample : inputLines (utf8 "up\r\n\ndown") = [utf8 "up", utf8 "down"] := by
  decide

/-- An empty line and a line ended in the manner of DOS. -/
theorem two_lines_read_back :
    (collect sampleSource (Writer.new .empty 0) (utf8 "up\r\n\ndown")).2 = .eof ∧
      (query (collect sampleSource (Writer.new .empty 0) (utf8 "up\r\n\ndown")).1.dir
        everything).map Record.message = inputLines (utf8 "up\r\n\ndown") := by
  refine (collect_reads_back_iff sampleSource { year := 2025, month := 3, day := 1 } 0
    (utf8 "up\r\n\ndown") sampleSource_oneDay (by decide) (by decide +kernel)).mpr
      ⟨by decide, by decide +kernel, fun line member => ?_⟩
  rw [inputLines_sample, mem_cons, mem_singleton] at member
  rcases member with rfl | rfl
  · exact ⟨"up", rfl⟩
  · exact ⟨"down", rfl⟩

/-- A line of 64 KiB ends the collector, and the short line after it never reaches the journal. -/
theorem long_line_hides_next :
    (collect sampleSource (Writer.new .empty 0)
        (List.replicate scanLimit 97 ++ newline :: utf8 "down\n")).2 ≠ .eof ∧
      query (collect sampleSource (Writer.new .empty 0)
        (List.replicate scanLimit 97 ++ newline :: utf8 "down\n")).1.dir everything = [] ∧
      utf8 "down" ∈ inputLines (List.replicate scanLimit 97 ++ newline :: utf8 "down\n") := by
  have absent : newline ∉ List.replicate scanLimit (97 : UInt8) := by
    intro member
    exact absurd (eq_of_mem_replicate member) (by decide)
  have stopped : scan true (List.replicate scanLimit 97 ++ newline :: utf8 "down\n") = _ :=
    scan_tooLong absent (by rw [length_replicate]) (newline :: utf8 "down\n")
  rw [collect, stopped, inputLines, splitOn_append_cons_self_of_not_mem absent]
  refine ⟨by decide, by decide, mem_filter.mpr ⟨?_, by decide⟩⟩
  exact mem_cons_of_mem _ (by decide)

open Foundation.Machine

def matching (filter : Filter) (records : List Record) : List Record :=
  (records.map Record.stored).filter filter.matches

@[simp] theorem matching_nil (filter : Filter) : matching filter [] = [] := rfl

theorem matching_append (filter : Filter) (first second : List Record) :
    matching filter (first ++ second) = matching filter first ++ matching filter second := by
  simp [matching]

theorem lookup_ensureFile {writer : Writer} {name : String} {content : Bytes}
    (found : writer.dir.lookup name = some content) (time : Timestamp) :
    (writer.ensureFile time).dir.lookup name = some content := by
  rw [Writer.ensureFile]
  split
  · exact found
  · by_cases day : name = dayFile time
    · rw [day] at found ⊢
      simp [found]
    · simpa [lookup_alter_of_ne _ day] using found

def Uncapped (state : Following) : FollowStep → Prop
  | .append => ∀ write ∈ state.pending,
      totalSize (state.writer.appendLine write.2).dir.entries ≤ state.writer.maxSize
  | _ => True

/-- The matching records in a file that the follower, at its offset, has still to read. -/
def Following.unread (filter : Filter) (state : Following) (path : String) : List Record :=
  (scan true (((state.writer.dir.lookup path).getD []).drop state.curOffset)).tokens.filterMap
    (decodeMatching filter)

/-- A matching record goes to the file being followed, in a line under the limit; and the follower turns
to another file when there is no matching record left to read. -/
def InSight (filter : Filter) (state : Following) : FollowStep → Prop
  | .append => ∀ write ∈ state.pending,
      (state.curPath = some (dayFile write.1.time) → write.1.Scannable) ∧
        (0 < state.polls → filter.matches write.1.stored = true →
          state.curPath = some (dayFile write.1.time))
  | .stat => ∀ path ∈ state.curPath, state.phase ≠ .statting path → state.unread filter path = []
  | _ => True

instance (state : Following) : DecidablePred (Uncapped state)
  | .append => inferInstanceAs (Decidable (∀ write ∈ state.pending, _))
  | .begin _ | .list | .stat | .read => .isTrue trivial

instance (filter : Filter) (state : Following) : DecidablePred (InSight filter state)
  | .append => inferInstanceAs (Decidable (∀ write ∈ state.pending, _))
  | .stat => inferInstanceAs (Decidable (∀ path ∈ state.curPath, _))
  | .begin _ | .list | .read => .isTrue trivial

/-! ### The invariant -/

namespace Following

/-- The records in the current file from the offset on, and how they account for what is written. -/
structure Cursor (filter : Filter) (state : Following) (path : String) (rest : List Record) : Prop where
  file : ∃ content, state.writer.dir.lookup path = some content ∧
    state.curOffset ≤ content.length ∧ Written rest (content.drop state.curOffset)
  scannable : ∀ record ∈ rest, record.Scannable
  accounts : 0 < state.polls →
    state.delivered ++ matching filter rest = matching filter state.written

structure Tracks (filter : Filter) (state : Following) : Prop where
  linked : state.writer.file ≠ some .unlinked
  pending : ∀ record line, state.pending = some (record, line) →
    record.marshalNDJSON = some line ∧ state.writer.file = some .linked ∧
      state.writer.today = dayFile record.time
  statting : ∀ latest, state.phase = .statting latest →
    ∃ content, state.writer.dir.lookup latest = some content
  fresh : state.polls = 0 → state.written = [] ∧ state.delivered = []
  nowhere : state.curPath = none → state.delivered = matching filter state.written
  somewhere : ∀ path, state.curPath = some path → ∃ rest, state.Cursor filter path rest

variable {filter : Filter} {state next : Following}

theorem Tracks.start (filter : Filter) (dir : Directory) (maxSize : Int) :
    (Following.start (Writer.new dir maxSize)).Tracks filter :=
  { linked := fun unlinked => by cases unlinked
    pending := fun _ _ pending => by cases pending
    statting := fun _ statting => by cases statting
    fresh := fun _ => ⟨rfl, rfl⟩
    nowhere := fun _ => rfl
    somewhere := fun _ following => by cases following }

theorem Cursor.unread_eq {path : String} {rest : List Record}
    (cursor : state.Cursor filter path rest) : state.unread filter path = matching filter rest := by
  obtain ⟨content, found, -, written⟩ := cursor.file
  rw [unread, found, Option.getD_some]
  exact (scan_written written cursor.scannable filter).2

theorem Tracks.begin (tracks : state.Tracks filter) {record : Record}
    (steps : state.step filter (.begin record) = some next) : next.Tracks filter := by
  rw [Following.step] at steps
  split at steps
  · rename_i line _ encoded
    cases steps
    have fresh : ¬ state.writer.Stale record.time := fun stale => tracks.linked stale.2
    obtain ⟨file, today, -⟩ := Writer.append_of_fresh fresh line
    simp only [Writer.file_appendLine, Writer.today_appendLine] at file today
    refine ⟨by simp [file], ?_, ?_, tracks.fresh, tracks.nowhere, ?_⟩
    · intro other otherLine same
      cases same
      exact ⟨encoded, file, today⟩
    · intro latest phase
      obtain ⟨content, found⟩ := tracks.statting latest phase
      exact ⟨content, lookup_ensureFile found record.time⟩
    · intro path following
      obtain ⟨rest, ⟨content, found, offset⟩, scannable, accounts⟩ := tracks.somewhere path following
      exact ⟨rest, ⟨content, lookup_ensureFile found record.time, offset⟩, scannable, accounts⟩
  · cases steps

theorem Tracks.appended (tracks : state.Tracks filter) {record : Record} {line : Bytes}
    (pending : state.pending = some (record, line)) (uncapped : Uncapped state .append) :
    Writer.Appended state.writer (state.writer.appendLine line).enforceCap record.time line := by
  obtain ⟨-, file, today⟩ := tracks.pending record line pending
  have appended := Writer.append_of_linked today file line
  have fits : totalSize (state.writer.appendLine line).dir.entries ≤
      (state.writer.appendLine line).maxSize := by
    rw [appended.maxSize]
    exact uncapped (record, line) pending
  rw [enforceCap_of_fits fits appended.file (by rw [appended.today]; exact appended.same)]
  exact appended

theorem Tracks.append (tracks : state.Tracks filter) (uncapped : Uncapped state .append)
    (inSight : InSight filter state .append) (steps : state.step filter .append = some next) :
    next.Tracks filter := by
  rw [Following.step] at steps
  split at steps
  · rename_i record line pending
    cases steps
    obtain ⟨encoded, -, -⟩ := tracks.pending record line pending
    have appended := tracks.appended pending uncapped
    obtain ⟨short, sight⟩ := inSight (record, line) pending
    have elsewhere : state.curPath ≠ some (dayFile record.time) → 0 < state.polls →
        matching filter (state.written ++ [record]) = matching filter state.written := by
      intro away polled
      have unmatched := mt (sight polled) away
      simp [matching, unmatched]
    refine ⟨by simp [appended.file], fun _ _ same => (by cases same), ?_, ?_, ?_, ?_⟩
    · intro latest phase
      obtain ⟨content, found⟩ := tracks.statting latest phase
      by_cases day : latest = dayFile record.time
      · exact ⟨_, by rw [day]; exact appended.same⟩
      · exact ⟨content, by rw [appended.others latest day]; exact found⟩
    · intro (zero : state.polls = 0)
      obtain ⟨written, delivered⟩ := tracks.fresh zero
      exact ⟨by simp [zero, written], delivered⟩
    · intro (nowhere : state.curPath = none)
      have before := tracks.nowhere nowhere
      by_cases polled : 0 < state.polls
      · simp only [polled, if_true]
        rw [elsewhere (by simp [nowhere]) polled]
        exact before
      · simpa [polled] using before
    · intro path (following : state.curPath = some path)
      obtain ⟨rest, ⟨content, found, offset, written⟩, scannable, accounts⟩ :=
        tracks.somewhere path following
      by_cases day : path = dayFile record.time
      · -- The line is appended to the current file.
        refine ⟨rest ++ [record], ⟨content ++ line, ?_, ?_, ?_⟩, ?_, ?_⟩
        · rw [day] at found ⊢
          rw [appended.same, found]
          rfl
        · rw [length_append]
          exact Nat.le_add_right_of_le offset
        · rw [drop_append_of_le_length offset]
          exact written.append (.singleton encoded)
        · intro other member
          rcases mem_append.mp member with old | new
          · exact scannable other old
          · rw [mem_singleton.mp new]
            exact short (following.trans (by rw [day]))
        · intro polled
          simp only [polled, if_true]
          rw [matching_append, matching_append, ← accounts polled, append_assoc]
      · refine ⟨rest, ⟨content, ?_, offset, written⟩, scannable, ?_⟩
        · rw [appended.others path day]
          exact found
        · intro polled
          simp only [polled, if_true]
          rw [elsewhere (by simpa [following] using day) polled]
          exact accounts polled
  · cases steps

theorem Tracks.turn (tracks : state.Tracks filter) {phase : Phase}
    (known : ∀ latest, phase = .statting latest →
      ∃ content, state.writer.dir.lookup latest = some content) :
    Tracks filter { state with phase } := by
  refine ⟨tracks.linked, tracks.pending, known, tracks.fresh, tracks.nowhere, ?_⟩
  intro path following
  obtain ⟨rest, file, scannable, accounts⟩ := tracks.somewhere path following
  exact ⟨rest, file, scannable, accounts⟩

theorem Tracks.list (tracks : state.Tracks filter) (steps : state.step filter .list = some next) :
    next.Tracks filter := by
  rw [Following.step] at steps
  split at steps
  · -- The directory is empty, so the follower follows nothing yet.
    rename_i phase empty
    cases steps
    have unfollowed : ∀ path, state.curPath ≠ some path := by
      intro path following
      obtain ⟨-, ⟨content, found, -⟩, -⟩ := tracks.somewhere path following
      have member := lookup_eq_some_iff.mp found
      rw [last_eq_none_iff.mp empty] at member
      cases member
    refine ⟨tracks.linked, tracks.pending, tracks.statting, ?_, tracks.nowhere, ?_⟩
    · intro zero
      cases zero
    · intro path following
      exact absurd following (unfollowed path)
  · rename_i latest phase greatest
    cases steps
    refine tracks.turn fun other same => ?_
    cases same
    exact lookup_of_last greatest
  · cases steps

theorem Tracks.stat (tracks : state.Tracks filter) (inSight : InSight filter state .stat)
    (steps : state.step filter .stat = some next) : next.Tracks filter := by
  rw [Following.step] at steps
  split at steps
  · rename_i latest phase
    split at steps
    · cases steps
      exact tracks.turn fun other same => by cases same
    · rename_i different
      cases steps
      obtain ⟨content, found⟩ := tracks.statting latest phase
      refine ⟨tracks.linked, tracks.pending, fun _ same => (by cases same), tracks.fresh,
        fun nowhere => (by cases nowhere), ?_⟩
      intro path following
      cases following
      refine ⟨[], ⟨content, found, ?_, ?_⟩, by simp, ?_⟩
      · simp [found]
      · simpa [found] using Written.nil
      · -- Nothing is left behind in the file that was followed before.
        intro polled
        rw [matching_nil, append_nil]
        cases current : state.curPath with
        | none => exact tracks.nowhere current
        | some path =>
          obtain ⟨rest, cursor⟩ := tracks.somewhere path current
          have other : state.phase ≠ .statting path := by
            rw [phase]
            rintro ⟨rfl⟩
            exact different current
          have accounts := cursor.accounts polled
          rwa [← cursor.unread_eq, inSight path current other, append_nil] at accounts
  · cases steps

theorem Tracks.read_spec (tracks : state.Tracks filter) (steps : state.step filter .read = some next) :
    next.Tracks filter ∧ next.delivered = matching filter next.written := by
  rw [Following.step] at steps
  split at steps
  · rename_i path phase current
    obtain ⟨rest, ⟨content, found, offset, written⟩, scannable, accounts⟩ :=
      tracks.somewhere path current
    obtain ⟨ends, tokens⟩ := scan_written written scannable filter
    rw [found] at steps
    simp only [bytesRead_of_eof ends, tokens, Option.some.injEq] at steps
    subst steps
    have everything : (if 0 < state.polls then state.delivered ++ matching filter rest
        else state.delivered) = matching filter state.written := by
      split
      · rename_i polled
        exact accounts polled
      · rename_i unpolled
        obtain ⟨noneWritten, noneDelivered⟩ := tracks.fresh (Nat.eq_zero_of_not_pos unpolled)
        rw [noneWritten, noneDelivered, matching_nil]
    refine ⟨⟨tracks.linked, tracks.pending, fun _ same => (by cases same), fun zero => (by cases zero),
      fun _ => everything, ?_⟩, everything⟩
    intro other following
    obtain rfl : path = other := Option.some.inj (current.symm.trans following)
    have atEnd : state.curOffset + (content.drop state.curOffset).length = content.length := by
      rw [length_drop]
      omega
    refine ⟨[], ⟨content, found, ?_, ?_⟩, by simp, fun _ => ?_⟩
    · exact atEnd.le
    · simp only [atEnd, drop_length]
      exact .nil
    · rw [matching_nil, append_nil]
      exact everything
  · cases steps

theorem Tracks.step (tracks : state.Tracks filter) {label : FollowStep}
    (allowed : Uncapped state label ∧ InSight filter state label)
    (steps : state.step filter label = some next) : next.Tracks filter := by
  cases label with
  | begin record => exact tracks.begin steps
  | append => exact tracks.append allowed.1 allowed.2 steps
  | list => exact tracks.list steps
  | stat => exact tracks.stat allowed.2 steps
  | read => exact (tracks.read_spec steps).1

theorem Tracks.prefix_written (tracks : state.Tracks filter) :
    state.delivered <+: matching filter state.written := by
  by_cases polled : 0 < state.polls
  · cases current : state.curPath with
    | none =>
      refine ⟨[], ?_⟩
      rw [append_nil]
      exact tracks.nowhere current
    | some path =>
      obtain ⟨rest, cursor⟩ := tracks.somewhere path current
      exact ⟨matching filter rest, cursor.accounts polled⟩
  · obtain ⟨-, delivered⟩ := tracks.fresh (Nat.eq_zero_of_not_pos polled)
    rw [delivered]
    exact List.nil_prefix

end Following

/-- Along every run in which no file is removed and every matching record stays in sight, what `Follow`
has delivered since its first poll is at any time a prefix of the matching records written since, in the
order written, and all of them after each read. -/
theorem follow_delivers (filter : Filter) (dir : Directory) (maxSize : Int)
    (labels : List FollowStep) (last : Following)
    (allowed : Throughout (Following.step filter)
      (fun state label => Uncapped state label ∧ InSight filter state label)
      (.start (Writer.new dir maxSize)) labels)
    (runs : run (Following.step filter) (.start (Writer.new dir maxSize)) labels = some last) :
    last.delivered <+: matching filter last.written ∧
      (labels.getLast? = some .read → last.delivered = matching filter last.written) := by
  have kept : ∀ state label next, Following.Tracks filter state →
      Uncapped state label ∧ InSight filter state label →
      Following.step filter state label = some next → Following.Tracks filter next :=
    fun _ _ _ tracks met steps => tracks.step met steps
  have begins := Following.Tracks.start filter dir maxSize
  refine ⟨(run_invariant kept begins allowed runs).prefix_written, ?_⟩
  intro final
  obtain ⟨front, rfl⟩ := getLast?_eq_some_iff.mp final
  obtain ⟨middle, runsFront, runsRead⟩ := run_append_eq_some.mp runs
  obtain ⟨next, reads, ends⟩ := run_cons_eq_some.mp runsRead
  cases ends
  have tracks := run_invariant kept begins (throughout_append allowed runsFront).1 runsFront
  exact (tracks.read_spec reads).2

/-- A poll of the empty directory, one between the creation of the day's file and the first line, and one
after the second line. -/
def earlyPolls : List FollowStep :=
  [.list, .begin sampleRecord, .list, .stat, .read, .append, .begin sampleRecord, .append, .list, .stat, .read]

/-- A follower that finds the day's file before its first record delivers both records. -/
theorem early_records_delivered :
    ∃ last, run (Following.step everything) (.start (Writer.new .empty 0)) earlyPolls = some last ∧
      last.written = [sampleRecord, sampleRecord] ∧ last.delivered = matching everything last.written := by
  obtain ⟨last, runs, written⟩ := Option.map_eq_some_iff.mp
    (show (run (Following.step everything) (.start (Writer.new .empty 0)) earlyPolls).map
      Following.written = some [sampleRecord, sampleRecord] by decide +kernel)
  exact ⟨last, runs, written,
    (follow_delivers everything .empty 0 earlyPolls last (by decide +kernel) runs).2 rfl⟩

def nextDayRecord : Record :=
  { sampleRecord with
    time :=
      { sampleRecord.time with
        date := { year := 2025, month := 3, day := 2 }
        validDate := by decide } }

/-- The first record of a new day is written between two polls, and the follower starts behind it. -/
theorem new_day_record_lost :
    (run (Following.step everything) (.start (Writer.new .empty 0))
        [.begin sampleRecord, .append, .list, .stat, .read,
          .begin nextDayRecord, .append, .list, .stat, .read]).map
      (fun last => (last.written, last.delivered)) = some ([nextDayRecord], []) ∧
      everything.matches nextDayRecord.stored = true := by
  decide +kernel

end NuraOS.Journal
