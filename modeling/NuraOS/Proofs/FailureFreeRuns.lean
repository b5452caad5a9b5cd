/-
Purpose: The provenance log under failing calls and crashes, without failures, and after tampering.
-/
import NuraOS.Proofs.WriterSpec

namespace NuraOS.Provenance

open Foundation List

variable {Value : Type} (serde : SerdeJson Value)

/-- The world agrees with an intact log: its entries are the successful appends, and the writer, if
there is one, stands at the end. -/
structure Tracks (world : World) (chunks : List (List (ProvenanceEntry Value))) : Prop where
  log : Log serde world.dir chunks
  count : chunks.flatten.length = world.appended
  atEnd : ∀ writer, world.writer = some writer → AtEnd serde world.dir chunks writer

/-- An append that may be interrupted without harm: if it goes through, its writer has not lost count;
if not, it stops before it has created a file or written a byte. -/
def Clean (world : World) : LogEvent Value → Prop
  | .openLog _ _ => True
  | .appendEntry _ faults => ∀ writer, world.writer = some writer →
      (goesThrough writer.rotates faults = true ∧ writer.seq = world.appended) ∨
        stopsEarly writer.rotates faults = true

def CleanRun (world : World) : List (LogEvent Value) → Prop
  | [] => True
  | event :: events =>
    Clean world event ∧ (world.step serde event).dir.fileCount < 10000 ∧
      CleanRun (world.step serde event) events

variable {serde} {world : World} {chunks : List (List (ProvenanceEntry Value))}

theorem Tracks.fresh : Tracks serde World.fresh [] where
  log := Log.empty
  count := rfl
  atEnd := by simp [World.fresh]

theorem Holds.fileCount_eq {dir : SessionsDir} (holds : Holds serde dir chunks) :
    dir.fileCount = chunks.length :=
  holds.length_sortedFiles

theorem Tracks.openLog (tracks : Tracks serde world chunks) (few : chunks.length < 10000)
    (now : Int) (faults : List Fault) :
    ∃ later, Tracks serde (world.step serde (.openLog now faults)) later ∧
      (later = chunks ∨ (chunks = [] ∧ later = [[]])) ∧
      ∀ writer, (world.step serde (.openLog now faults)).writer = some writer →
        writer.seq = (world.step serde (.openLog now faults)).appended := by
  obtain ⟨later, ⟨log, shape⟩, opened⟩ := tracks.log.open_spec now few faults
  have flat : later.flatten = chunks.flatten := by
    rcases shape with rfl | ⟨rfl, rfl⟩
    · rfl
    · rfl
  have count : later.flatten.length = world.appended := by rw [flat, tracks.count]
  have spec : ∀ writer, (world.step serde (.openLog now faults)).writer = some writer →
      AtEnd serde ((ProvenanceWriter.open serde now).run faults world.dir).store later writer ∧
        writer.seq = later.flatten.length := by
    intro writer present
    apply opened
    simp only [World.step] at present
    split at present
    · simp_all
    · simp at present
  refine ⟨later, ⟨log, count, fun writer present => (spec writer present).1⟩, shape, ?_⟩
  intro writer present
  rw [(spec writer present).2, count]
  rfl

def ProvenanceWriter.entryFor (serde : SerdeJson Value) (writer : ProvenanceWriter)
    (args : AppendArgs Value) : ProvenanceEntry Value :=
  writer.nextEntry serde args.now args.kind args.turnId args.content

variable {writer : ProvenanceWriter} {faults : List Fault} {events : List (LogEvent Value)}

/-- An append that goes through keeps the agreement when its writer has not lost count. -/
theorem Tracks.append (tracks : Tracks serde world chunks)
    (present : world.writer = some writer) (args : AppendArgs Value)
    (through : goesThrough writer.rotates faults = true) (number : writer.seq = world.appended) :
    ∃ written later, Tracks serde (world.step serde (.appendEntry args faults)) later ∧
      (world.step serde (.appendEntry args faults)).writer = some written ∧
      (world.step serde (.appendEntry args faults)).appended = world.appended + 1 ∧
      written.seq = world.appended + 1 ∧
      later.flatten = chunks.flatten ++ [writer.entryFor serde args] ∧
      ((writer.rotates = false ∧ later.length = chunks.length) ∨
        (writer.rotates = true ∧ later = chunks ++ [[writer.entryFor serde args]])) := by
  have position : writer.seq = chunks.flatten.length := number.trans tracks.count.symm
  obtain ⟨written, later, outcome, log, atEnd, seq, flat, shape⟩ :=
    tracks.log.append_spec args.now args.kind args.turnId args.content
      (tracks.atEnd writer present) position through rfl rfl
  have stepped : world.step serde (.appendEntry args faults) =
      { dir := ((writer.appendWith serde args).run faults world.dir).store
        writer := some written
        appended := world.appended + 1 } := by
    simp only [World.step, present, ProvenanceWriter.appendWith, outcome]
  rw [stepped]
  refine ⟨written, later, ⟨log, ?_, ?_⟩, rfl, rfl, ?_, flat, shape⟩
  · rw [flat, length_append, length_singleton, tracks.count]
  · intro other same
    obtain rfl : written = other := Option.some.inj same
    exact atEnd
  · rw [seq, number]

theorem Tracks.stopped (tracks : Tracks serde world chunks) (present : world.writer = some writer)
    (args : AppendArgs Value) (early : stopsEarly writer.rotates faults = true) :
    Tracks serde (world.step serde (.appendEntry args faults)) chunks := by
  obtain ⟨store, crashed | ⟨seq, returned⟩⟩ :=
    append_stopsEarly serde world.dir args.now args.kind args.turnId args.content early
  · have stepped : world.step serde (.appendEntry args faults) =
        { world with writer := none } := by
      simp only [World.step, present, ProvenanceWriter.appendWith, crashed, store]
    rw [stepped]
    exact ⟨tracks.log, tracks.count, by simp⟩
  · have stepped : world.step serde (.appendEntry args faults) =
        { world with writer := some { writer with seq := seq } } := by
      simp only [World.step, present, ProvenanceWriter.appendWith, returned, store]
    rw [stepped]
    refine ⟨tracks.log, tracks.count, ?_⟩
    intro other same
    obtain rfl : { writer with seq := seq } = other := Option.some.inj same
    obtain ⟨newest, lastHash⟩ := tracks.atEnd writer present
    exact ⟨newest, lastHash⟩

theorem Tracks.step (tracks : Tracks serde world chunks) (few : chunks.length < 10000)
    {event : LogEvent Value} (clean : Clean world event) :
    ∃ later, Tracks serde (world.step serde event) later ∧ later.length ≤ chunks.length + 1 := by
  cases event with
  | openLog now faults =>
    obtain ⟨later, stepped, shape, -⟩ := tracks.openLog few now faults
    refine ⟨later, stepped, ?_⟩
    rcases shape with rfl | ⟨rfl, rfl⟩
    · exact Nat.le_succ _
    · exact Nat.le_refl _
  | appendEntry args faults =>
    cases present : world.writer with
    | none =>
      have stepped : world.step serde (.appendEntry args faults) = world := by
        simp [World.step, present]
      rw [stepped]
      exact ⟨chunks, tracks, Nat.le_succ _⟩
    | some writer =>
      rcases clean writer present with ⟨through, number⟩ | early
      · obtain ⟨written, later, stepped, -, -, -, -, shape⟩ :=
          tracks.append present args through number
        refine ⟨later, stepped, ?_⟩
        rcases shape with ⟨-, same⟩ | ⟨-, rfl⟩
        · rw [same]
          exact Nat.le_succ _
        · rw [length_append, length_singleton]
      · exact ⟨chunks, tracks.stopped present args early, Nat.le_succ _⟩

theorem Tracks.run (tracks : Tracks serde world chunks)
    (few : chunks.length < 10000) (clean : CleanRun serde world events) :
    ∃ later, Tracks serde (world.after serde events) later ∧ later.length < 10000 := by
  induction events generalizing world chunks with
  | nil => exact ⟨chunks, tracks, few⟩
  | cons event events ih =>
    obtain ⟨cleanStep, fewAfter, cleanRest⟩ := clean
    obtain ⟨later, stepped, -⟩ := tracks.step few cleanStep
    rw [stepped.log.toHolds.fileCount_eq] at fewAfter
    exact ih stepped fewAfter cleanRest

/-- In every state of a clean run the verifier accepts the log and counts the appends that returned
`Ok`. -/
theorem cleanRun_verifies (serde : SerdeJson Value) (dirPath : String)
    (events : List (LogEvent Value)) (clean : CleanRun serde World.fresh events) :
    verifyChain serde dirPath (World.fresh.after serde events).dir =
      .ok (World.fresh.after serde events).appended := by
  obtain ⟨later, tracks, few⟩ := Tracks.fresh.run (by simp) clean
  rw [tracks.log.verifyChain_eq few, tracks.count]

theorem goesThrough_nil (rotates : Bool) : goesThrough rotates [] = true := by
  cases rotates <;> rfl

theorem stopsEarly_ioError (rotates : Bool) : stopsEarly rotates [.ioError 0] = true := by
  cases rotates <;> rfl

theorem Tracks.cleanRun (tracks : Tracks serde world chunks)
    (short : chunks.length + events.length < 10000) (clean : world.Throughout serde Clean events) :
    CleanRun serde world events := by
  induction events generalizing world chunks with
  | nil => trivial
  | cons event events ih =>
    obtain ⟨cleanStep, cleanRest⟩ := clean
    rw [length_cons] at short
    obtain ⟨later, stepped, atMost⟩ := tracks.step (by omega) cleanStep
    refine ⟨cleanStep, ?_, ih stepped (by omega) cleanRest⟩
    rw [stepped.log.toHolds.fileCount_eq]
    omega

/-- An entry is written; the next one fails before its first byte, and is written after the log was
opened again. -/
def retriedRun (args : AppendArgs Value) : List (LogEvent Value) :=
  [.openLog args.now [], .appendEntry args [], .appendEntry args [.ioError 0],
    .openLog args.now [], .appendEntry args []]

theorem retriedRun_clean (serde : SerdeJson Value) (args : AppendArgs Value) :
    CleanRun serde World.fresh (retriedRun args) := by
  have fresh : Tracks serde World.fresh [] := Tracks.fresh
  obtain ⟨first, opened, firstShape, firstNumber⟩ := fresh.openLog (by simp) args.now []
  have firstLength : first.length ≤ 1 := by
    rcases firstShape with rfl | ⟨-, rfl⟩ <;> simp
  have firstClean : Clean (World.fresh.step serde (.openLog args.now [])) (.appendEntry args []) :=
    fun writer present => Or.inl ⟨goesThrough_nil _, firstNumber writer present⟩
  obtain ⟨second, appended, secondLength⟩ := opened.step (by omega) firstClean
  have failedClean : ∀ world, Clean world (.appendEntry args [.ioError 0]) :=
    fun world writer present => Or.inr (stopsEarly_ioError _)
  obtain ⟨third, failed, thirdLength⟩ := appended.step (by omega) (failedClean _)
  obtain ⟨-, -, -, lastNumber⟩ := failed.openLog (by omega) args.now []
  apply fresh.cleanRun (by simp [retriedRun])
  refine ⟨trivial, firstClean, failedClean _, trivial, ?_, trivial⟩
  intro writer present
  exact Or.inl ⟨goesThrough_nil _, lastNumber writer present⟩

def sampleAppend : AppendArgs Json :=
  { now := 1705314181000000000, kind := .turnStart, turnId := "turn-1", content := .str "hello" }

theorem retriedRun_verifies :
    CleanRun jsonSerde World.fresh (retriedRun sampleAppend) ∧
      verifyChain jsonSerde "/data/sessions"
          (World.fresh.after jsonSerde (retriedRun sampleAppend)).dir =
        .ok (World.fresh.after jsonSerde (retriedRun sampleAppend)).appended :=
  ⟨retriedRun_clean jsonSerde sampleAppend,
    cleanRun_verifies jsonSerde "/data/sessions" (retriedRun sampleAppend)
      (retriedRun_clean jsonSerde sampleAppend)⟩

/-- The first entry fails before its first byte, and the same writer is used again. -/
def staleWriterRun (args : AppendArgs Value) : List (LogEvent Value) :=
  [.openLog args.now [], .appendEntry args [.ioError 0], .appendEntry args []]

theorem step_open_fresh (serde : SerdeJson Value) (now : Int) :
    World.fresh.step serde (.openLog now []) =
      { dir := SessionsDir.empty.create (sessionName 1) now rfl
        writer := some { file := 0, seq := 0, lastHash := genesisHash, fileBytes := 0 }
        appended := 0 } := by
  rfl

theorem Tracks.opened (serde : SerdeJson Value) (now : Int) :
    Tracks serde (World.fresh.step serde (.openLog now [])) [[]] := by
  rw [step_open_fresh]
  refine ⟨Log.empty.create_first now, rfl, ?_⟩
  rintro writer ⟨⟩
  exact ⟨⟨[], [], rfl, ⟨_, SessionsDir.find_create_same rfl, rfl⟩, rfl⟩, rfl⟩

theorem staleWriterRun_rejected (serde : SerdeJson Value) (args : AppendArgs Value)
    (dirPath : String) :
    (World.fresh.after serde (staleWriterRun args)).appended = 1 ∧
      ∀ count, verifyChain serde dirPath (World.fresh.after serde (staleWriterRun args)).dir ≠
        .ok count := by
  let writer : ProvenanceWriter := { file := 0, seq := 1, lastHash := genesisHash, fileBytes := 0 }
  let dir := SessionsDir.empty.create (sessionName 1) args.now rfl
  have holds : Holds serde dir [[]] := Holds.empty.create args.now
  have attached : Attached dir 0 writer := ⟨_, SessionsDir.find_create_same rfl, rfl⟩
  obtain ⟨written, outcome, -, -, shape⟩ :=
    holds.append_spec args.now args.kind args.turnId args.content attached rfl (goesThrough_nil _) rfl rfl
  refine ⟨rfl, ?_⟩
  intro count accepted
  rcases shape with ⟨-, after, -⟩ | ⟨full, -⟩
  · obtain ⟨entries, parsed, linked, -⟩ := (verifyChain_ok_iff serde).mp accepted
    have whole := after.logEntries_eq (by simp)
    obtain rfl := Option.some.inj (parsed.symm.trans whole)
    -- The writer has taken number one for the entry that failed.
    have one : (1 : Nat) + 1 = 1 := linked.1
    omega
  · cases full

/-- The failed append is not in the log, but the writer has counted it. -/
theorem staleWriterRun_breaks_log :
    (World.fresh.after jsonSerde (staleWriterRun sampleAppend)).appended = 1 ∧
      ∀ count, verifyChain jsonSerde "/data/sessions"
        (World.fresh.after jsonSerde (staleWriterRun sampleAppend)).dir ≠ .ok count :=
  staleWriterRun_rejected jsonSerde sampleAppend "/data/sessions"

/-! ### Without failures -/

variable {Value : Type} (serde : SerdeJson Value)

def InOrder (world : World) : LogEvent Value → Prop
  | .openLog _ _ => True
  | .appendEntry _ _ => ∀ writer, world.writer = some writer → writer.rotates = true →
      world.dir.fileCount < 9999

def Sound (world : World) : Prop :=
  ∃ chunks, Tracks serde world chunks ∧ chunks.length < 10000 ∧
    ∀ writer, world.writer = some writer → writer.seq = world.appended

/-- The state from the ten-thousandth file on. The file sorts after the thousandth, its first entry
does not continue the chain there, and nobody writes to the first thousand files any more. -/
structure Overrun (world : World) (chunks : List (List (ProvenanceEntry Value))) : Prop where
  holds : Holds serde world.dir chunks
  many : 10000 ≤ chunks.length
  linked : (chainFormat serde).Linked 1 genesisHash (chunks.take 1000).flatten
  misplaced : ∃ entry rest, chunks[9999]? = some (entry :: rest) ∧
    entry.seq ≠ 1 + (chunks.take 1000).flatten.length
  attached : ∀ writer, world.writer = some writer →
    ∃ index chunk, 1000 ≤ index ∧ chunks[index]? = some chunk ∧ Attached world.dir index writer

variable {serde} {world : World} {chunks : List (List (ProvenanceEntry Value))}

theorem Sound.fresh : Sound serde World.fresh :=
  ⟨[], Tracks.fresh, by simp, by simp [World.fresh]⟩

theorem Sound.openLog (sound : Sound serde world) (now : Int) :
    Sound serde (world.step serde (.openLog now [])) ∧
      (world.step serde (.openLog now [])).writer.isSome = true ∧
      (world.step serde (.openLog now [])).appended = world.appended := by
  obtain ⟨chunks, tracks, few, -⟩ := sound
  obtain ⟨later, stepped, shape, number⟩ := tracks.openLog few now []
  obtain ⟨writer, returned⟩ := tracks.log.open_returns few now
  refine ⟨⟨later, stepped, ?_, number⟩, ?_, rfl⟩
  · rcases shape with rfl | ⟨-, rfl⟩
    · exact few
    · simp
  · simp [World.step, returned]

theorem Sound.append (sound : Sound serde world) (present : world.writer.isSome = true)
    (args : AppendArgs Value) (inOrder : InOrder world (.appendEntry args [])) :
    Sound serde (world.step serde (.appendEntry args [])) ∧
      (world.step serde (.appendEntry args [])).writer.isSome = true ∧
      (world.step serde (.appendEntry args [])).appended = world.appended + 1 := by
  obtain ⟨chunks, tracks, few, number⟩ := sound
  obtain ⟨writer, isWriter⟩ := Option.isSome_iff_exists.mp present
  obtain ⟨written, later, stepped, stays, appended, seq, -, shape⟩ :=
    tracks.append isWriter args (goesThrough_nil _) (number writer isWriter)
  refine ⟨⟨later, stepped, ?_, ?_⟩, by rw [stays]; rfl, appended⟩
  · rcases shape with ⟨-, same⟩ | ⟨full, rfl⟩
    · rw [same]
      exact few
    · have below := inOrder writer isWriter full
      rw [tracks.log.toHolds.fileCount_eq] at below
      rw [length_append, length_singleton]
      exact Nat.succ_lt_succ below
  · intro other same
    obtain rfl : written = other := Option.some.inj (stays.symm.trans same)
    rw [seq, appended]

theorem flatten_take_add_drop (chunks : List (List (ProvenanceEntry Value))) (count : Nat) :
    chunks.flatten = (chunks.take count).flatten ++ (chunks.drop count).flatten := by
  rw [← flatten_append, take_append_drop]

variable {dir : SessionsDir} {entries : List (ProvenanceEntry Value)} {count : Nat}

/-- A log with more than a thousand files has more entries than its first thousand files. -/
theorem Log.beyond_thousand (log : Log serde dir chunks) (more : 1000 < chunks.length) :
    (chunks.take 1000).flatten.length < chunks.flatten.length := by
  have filled : [] ∉ chunks := by
    apply log.filled.resolve_left
    rintro rfl
    simp at more
  have present : chunks[1000] ∈ chunks.drop 1000 := by
    rw [drop_eq_getElem_cons more]
    exact mem_cons_self
  have entries : (chunks.drop 1000).flatten ≠ [] := by
    intro empty
    have nothing := flatten_eq_nil_iff.mp empty _ present
    exact filled (nothing ▸ getElem_mem more)
  rw [flatten_take_add_drop chunks 1000, length_append]
  exact Nat.lt_add_of_pos_right (length_pos_iff.mpr entries)

theorem Sound.append_overruns (sound : Sound serde world) (args : AppendArgs Value)
    (outOfOrder : ¬ InOrder world (.appendEntry args [])) :
    ∃ later, Overrun serde (world.step serde (.appendEntry args [])) later := by
  obtain ⟨chunks, tracks, few, number⟩ := sound
  simp only [InOrder, not_forall] at outOfOrder
  obtain ⟨writer, isWriter, full, enough⟩ := outOfOrder
  rw [tracks.log.toHolds.fileCount_eq] at enough
  have exactly : chunks.length = 9999 := by omega
  obtain ⟨written, later, stepped, stays, -, -, -, shape⟩ :=
    tracks.append isWriter args (goesThrough_nil _) (number writer isWriter)
  obtain ⟨entry, rfl⟩ : ∃ entry, later = chunks ++ [[entry]] := by
    rcases shape with ⟨notFull, -⟩ | ⟨-, shape⟩
    · rw [full] at notFull
      cases notFull
    · exact ⟨_, shape⟩
  have early : (chunks ++ [[entry]]).take 1000 = chunks.take 1000 :=
    take_append_of_le_length (by omega)
  have linked := stepped.log.linked
  rw [flatten_append, flatten_singleton] at linked
  obtain ⟨front, seq, -, -⟩ := ChainFormat.linked_concat.mp linked
  refine ⟨chunks ++ [[entry]], stepped.log.toHolds, ?_, ?_, ⟨entry, [], ?_, ?_⟩, ?_⟩
  · simp [exactly]
  · rw [early]
    rw [flatten_take_add_drop chunks 1000] at front
    exact (ChainFormat.linked_append.mp front).1
  · rw [← exactly]
    simp
  · have fewer := tracks.log.beyond_thousand (by omega)
    have position : entry.seq = 1 + chunks.flatten.length := seq
    rw [early, position]
    omega
  · intro other same
    obtain rfl : written = other := Option.some.inj (stays.symm.trans same)
    obtain ⟨newFront, last, split, attached, -⟩ := (stepped.atEnd written stays).newest
    obtain ⟨rfl, -⟩ := append_inj' split rfl
    exact ⟨chunks.length, [entry], by omega, by simp, attached⟩

theorem Overrun.openLog (overrun : Overrun serde world chunks) (now : Int) :
    Overrun serde (world.step serde (.openLog now [])) chunks := by
  obtain ⟨others, sorted, members⟩ := sortedFiles_overrun overrun.holds.names overrun.many
  obtain ⟨index, late, bound, newest⟩ : ∃ index, 1000 ≤ index ∧ index < chunks.length ∧
      (sortedFiles world.dir.names).getLast? = some (sessionName (index + 1)) := by
    rw [sorted, getLast?_append_of_ne_nil _ (cons_ne_nil _ _)]
    cases last : others.getLast? with
    | none =>
      obtain rfl := getLast?_eq_none_iff.mp last
      have many := overrun.many
      exact ⟨9999, by decide, by omega, rfl⟩
    | some name =>
      obtain ⟨index, late, bound, rfl⟩ := members name (mem_of_getLast? last)
      exact ⟨index, late, bound, by simp [getLast?_cons, last]⟩
  have inChunks := getElem?_eq_getElem bound
  obtain ⟨writer, run, attached⟩ := overrun.holds.open_newest newest inChunks now
  have stepped : world.step serde (.openLog now []) = { world with writer := some writer } := by
    simp [World.step, run]
  rw [stepped]
  refine ⟨overrun.holds, overrun.many, overrun.linked, overrun.misplaced, ?_⟩
  intro other same
  obtain rfl : writer = other := Option.some.inj same
  exact ⟨index, chunks[index], late, inChunks, attached⟩

theorem Overrun.append (overrun : Overrun serde world chunks) (args : AppendArgs Value) :
    ∃ later, Overrun serde (world.step serde (.appendEntry args [])) later := by
  cases present : world.writer with
  | none =>
    have stepped : world.step serde (.appendEntry args []) = world := by
      simp [World.step, present]
    rw [stepped]
    exact ⟨chunks, overrun⟩
  | some writer =>
    obtain ⟨index, chunk, late, inChunks, attached⟩ := overrun.attached writer present
    obtain ⟨entry, rest, misplaced, wrong⟩ := overrun.misplaced
    obtain ⟨written, outcome, -, -, shape⟩ :=
      overrun.holds.append_spec args.now args.kind args.turnId args.content attached inChunks
        (goesThrough_nil _) rfl rfl
    have stepped : world.step serde (.appendEntry args []) =
        { dir := ((writer.appendWith serde args).run [] world.dir).store
          writer := some written
          appended := world.appended + 1 } := by
      simp only [World.step, present, ProvenanceWriter.appendWith, outcome]
    rw [stepped]
    have many := overrun.many
    rcases shape with ⟨-, holds, attached, -⟩ | ⟨-, holds, attached, -⟩
    · have early : ∀ value, (chunks.set index value).take 1000 = chunks.take 1000 :=
        fun value => take_set_of_le late
      refine ⟨_, holds, by simpa using many, ?_, ?_, ?_⟩
      · rw [early]
        exact overrun.linked
      · rw [early]
        by_cases same : index = 9999
        · subst same
          obtain rfl : entry :: rest = chunk := Option.some.inj (misplaced.symm.trans inChunks)
          exact ⟨entry, _, getElem?_set_self (by omega), wrong⟩
        · exact ⟨entry, rest, by rw [getElem?_set_ne same, misplaced], wrong⟩
      · intro other same
        obtain rfl : written = other := Option.some.inj same
        have bound := (List.getElem?_eq_some_iff.mp inChunks).1
        exact ⟨index, _, late, getElem?_set_self bound, attached⟩
    · have early : ∀ value, (chunks ++ [value]).take 1000 = chunks.take 1000 :=
        fun value => take_append_of_le_length (by omega)
      refine ⟨_, holds, by simp; omega, ?_, ?_, ?_⟩
      · rw [early]
        exact overrun.linked
      · rw [early]
        exact ⟨entry, rest, by rw [getElem?_append_left (by omega), misplaced], wrong⟩
      · intro other same
        obtain rfl : written = other := Option.some.inj same
        exact ⟨chunks.length, _, by omega, getElem?_concat_length, attached⟩

/-- The entries of an overrun log, in sorted order: those of the first thousand files, and then one
that does not carry on from there. -/
theorem Overrun.logEntries_eq (overrun : Overrun serde world chunks)
    (parsed : logEntries serde world.dir = some entries) :
    ∃ entry later, entries = (chunks.take 1000).flatten ++ entry :: later ∧
      entry.seq ≠ 1 + (chunks.take 1000).flatten.length := by
  obtain ⟨others, sorted, -⟩ := sortedFiles_overrun overrun.holds.names overrun.many
  obtain ⟨entry, rest, misplaced, wrong⟩ := overrun.misplaced
  have many := overrun.many
  have enough : 1000 ≤ chunks.length := by omega
  have front := overrun.holds.entriesOf_firstNames enough
  have contents : world.dir.read (sessionName 10000) = some (render serde (entry :: rest)) :=
    overrun.holds.read 9999 _ misplaced
  rw [logEntries, sorted, entriesOf_append, front, Option.bind_some] at parsed
  obtain ⟨tail, tailParsed, rfl⟩ := Option.map_eq_some_iff.mp parsed
  simp only [entriesOf, contents, parseLines_render, Option.bind_eq_bind, Option.bind_some]
    at tailParsed
  obtain ⟨more, -, whole⟩ := Option.bind_eq_some_iff.mp tailParsed
  obtain rfl : entry :: rest ++ more = tail := by simpa using whole
  exact ⟨entry, rest ++ more, rfl, wrong⟩

theorem Overrun.linked_take_iff (overrun : Overrun serde world chunks)
    (parsed : logEntries serde world.dir = some entries) (within : count ≤ entries.length) :
    (chainFormat serde).Linked 1 genesisHash (entries.take count) ↔
      count ≤ (chunks.take 1000).flatten.length := by
  obtain ⟨entry, later, rfl, wrong⟩ := overrun.logEntries_eq parsed
  constructor
  · intro linked
    apply Nat.le_of_not_lt
    intro beyond
    obtain ⟨more, rfl⟩ : ∃ more, count = (chunks.take 1000).flatten.length + (more + 1) :=
      ⟨count - (chunks.take 1000).flatten.length - 1, by omega⟩
    rw [take_length_add_append, take_succ_cons] at linked
    exact wrong (ChainFormat.linked_append.mp linked).2.1
  · intro few
    rw [take_append_of_le_length few]
    exact overrun.linked.of_prefix (List.take_prefix _ _)

theorem Overrun.rejected (overrun : Overrun serde world chunks) (dirPath : String) (count : Nat) :
    verifyChain serde dirPath world.dir ≠ .ok count := by
  intro accepted
  obtain ⟨entries, parsed, linked, -⟩ := (verifyChain_ok_iff serde).mp accepted
  rw [← take_length (l := entries)] at linked
  have short := (overrun.linked_take_iff parsed (Nat.le_refl _)).mp linked
  obtain ⟨entry, later, rfl, -⟩ := overrun.logEntries_eq parsed
  rw [length_append, length_cons] at short
  omega

/-! ### Runs -/

def LogEvent.FaultFree : LogEvent Value → Prop
  | .openLog _ faults => faults = []
  | .appendEntry _ faults => faults = []

theorem faultFree_sessionEvents (sessions : List (Session Value)) :
    ∀ event ∈ sessionEvents sessions, event.FaultFree := by
  intro event member
  obtain ⟨session, -, inSession⟩ := mem_flatMap.mp member
  rcases mem_cons.mp inSession with rfl | inAppends
  · rfl
  · obtain ⟨args, -, rfl⟩ := mem_map.mp inAppends
    rfl

theorem Overrun.step (overrun : Overrun serde world chunks) {event : LogEvent Value}
    (faultFree : event.FaultFree) : ∃ later, Overrun serde (world.step serde event) later := by
  cases event with
  | openLog now faults =>
    obtain rfl : faults = [] := faultFree
    exact ⟨chunks, overrun.openLog now⟩
  | appendEntry args faults =>
    obtain rfl : faults = [] := faultFree
    exact overrun.append args

theorem Overrun.run (overrun : Overrun serde world chunks) {events : List (LogEvent Value)}
    (faultFree : ∀ event ∈ events, event.FaultFree) :
    ∃ later, Overrun serde (world.after serde events) later := by
  induction events generalizing world chunks with
  | nil => exact ⟨chunks, overrun⟩
  | cons event events ih =>
    obtain ⟨later, stepped⟩ := overrun.step (faultFree event mem_cons_self)
    exact ih stepped fun other member =>
      faultFree other (mem_cons_of_mem _ member)

variable (serde) in
/-- How a failure-free run ends: its steps were all in order and every append counts, or the log is
overrun. -/
def Ends (world : World) (events : List (LogEvent Value)) (count : Nat) : Prop :=
  (world.Throughout serde InOrder events ∧ Sound serde (world.after serde events) ∧
      (world.after serde events).appended = count) ∨
    (¬ world.Throughout serde InOrder events ∧
      ∃ chunks, Overrun serde (world.after serde events) chunks)

theorem Ends.append {first second : List (LogEvent Value)} {total : Nat}
    (before : Ends serde world first count) (faultFree : ∀ event ∈ second, event.FaultFree)
    (later : Sound serde (world.after serde first) →
      (world.after serde first).appended = count → Ends serde (world.after serde first) second total) :
    Ends serde world (first ++ second) total := by
  unfold Ends
  rw [World.throughout_append, World.after_append]
  rcases before with ⟨inOrder, sound, counted⟩ | ⟨outOfOrder, chunks, overrun⟩
  · rcases later sound counted with ⟨rest, ending⟩ | ⟨rest, ending⟩
    · exact Or.inl ⟨⟨inOrder, rest⟩, ending⟩
    · exact Or.inr ⟨fun both => rest both.2, ending⟩
  · exact Or.inr ⟨fun both => outOfOrder both.1, overrun.run faultFree⟩

theorem Sound.appends (sound : Sound serde world) (present : world.writer.isSome = true)
    (appends : List (AppendArgs Value)) :
    Ends serde world (appends.map fun args => .appendEntry args [])
      (world.appended + appends.length) := by
  induction appends generalizing world with
  | nil => exact Or.inl ⟨trivial, sound, rfl⟩
  | cons args appends ih =>
    by_cases inOrder : InOrder world (.appendEntry args [])
    · obtain ⟨stepped, stillPresent, appended⟩ := sound.append present args inOrder
      have rest := ih stepped stillPresent
      rw [appended, Nat.add_assoc, Nat.add_comm 1] at rest
      rcases rest with ⟨throughout, ending⟩ | ⟨outOfOrder, ending⟩
      · exact Or.inl ⟨⟨inOrder, throughout⟩, ending⟩
      · exact Or.inr ⟨fun both => outOfOrder both.2, ending⟩
    · obtain ⟨chunks, overrun⟩ := sound.append_overruns args inOrder
      refine Or.inr ⟨fun both => inOrder both.1, overrun.run ?_⟩
      intro event member
      obtain ⟨other, -, rfl⟩ := mem_map.mp member
      rfl

theorem Sound.session (sound : Sound serde world) (session : Session Value) :
    Ends serde world session.events (world.appended + session.appends.length) := by
  obtain ⟨opened, present, appended⟩ := sound.openLog session.openedAt
  have rest := opened.appends present session.appends
  rcases rest with ⟨throughout, ending⟩ | ⟨outOfOrder, ending⟩
  · exact Or.inl ⟨⟨trivial, throughout⟩, ending⟩
  · exact Or.inr ⟨fun both => outOfOrder both.2, ending⟩

theorem Sound.sessions (sound : Sound serde world) (sessions : List (Session Value)) :
    Ends serde world (sessionEvents sessions) (world.appended + appendCount sessions) := by
  induction sessions generalizing world with
  | nil => exact Or.inl ⟨trivial, sound, rfl⟩
  | cons session sessions ih =>
    refine (sound.session session).append (faultFree_sessionEvents sessions) ?_
    intro later appended
    have rest := ih later
    rw [appended] at rest
    rw [appendCount_cons, ← Nat.add_assoc]
    exact rest

/-- Without failures the verifier returns the number of appends exactly when no append rotated to the
ten-thousandth file. -/
theorem failureFree_verifies_iff (serde : SerdeJson Value) (dirPath : String)
    (sessions : List (Session Value)) :
    verifyChain serde dirPath (World.fresh.after serde (sessionEvents sessions)).dir =
        .ok (appendCount sessions) ↔
      World.fresh.Throughout serde InOrder (sessionEvents sessions) := by
  have ends : Ends serde World.fresh (sessionEvents sessions) (0 + appendCount sessions) :=
    Sound.fresh.sessions sessions
  rcases ends with ⟨inOrder, ⟨chunks, tracks, few, -⟩, appended⟩ | ⟨outOfOrder, chunks, overrun⟩
  · refine iff_of_true ?_ inOrder
    rw [tracks.log.verifyChain_eq few, tracks.count, appended]
    exact congrArg _ (Nat.zero_add _)
  · exact iff_of_false (overrun.rejected dirPath _) outOfOrder

variable (serde) in
/-- A log of `count` files whose newest file is full. -/
def Filling (world : World) (count : Nat) : Prop :=
  ∃ chunks writer, Tracks serde world chunks ∧ chunks.length = count ∧
    world.writer = some writer ∧ writer.rotates = true ∧ writer.seq = world.appended

variable (serde) in
def FillsFile (args : AppendArgs Value) : Prop :=
  ∀ writer : ProvenanceWriter, maxFileBytes ≤ (entryLine serde (writer.entryFor serde args)).length

variable {args : AppendArgs Value}

theorem AtEnd.rotates {writer before : ProvenanceWriter} (fills : FillsFile serde args)
    (atEnd : AtEnd serde dir chunks writer) (front : List (List (ProvenanceEntry Value)))
    (newest : chunks = front ++ [[before.entryFor serde args]]) : writer.rotates = true := by
  obtain ⟨otherFront, last, split, -, size⟩ := atEnd.newest
  obtain ⟨-, same⟩ := append_inj' (newest.symm.trans split) rfl
  obtain rfl : [before.entryFor serde args] = last := by simpa using same
  rw [ProvenanceWriter.rotates, size, render_singleton]
  exact decide_eq_true (fills before)

theorem Filling.first (fills : FillsFile serde args) :
    Filling serde (World.fresh.after serde [.openLog args.now [], .appendEntry args []]) 1 := by
  obtain ⟨written, later, stepped, stays, appended, seq, flat, shape⟩ :=
    (Tracks.opened serde args.now).append (by rw [step_open_fresh]) args (goesThrough_nil _)
      (by rw [step_open_fresh])
  rcases shape with ⟨-, length⟩ | ⟨full, -⟩
  · obtain ⟨only, rfl⟩ := length_eq_one_iff.mp length
    simp only [flatten_singleton, nil_append] at flat
    subst flat
    exact ⟨_, written, stepped, rfl, stays, (stepped.atEnd written stays).rotates fills [] rfl,
      seq.trans appended.symm⟩
  · cases full

theorem Filling.next (fills : FillsFile serde args) (filling : Filling serde world count) :
    Filling serde (world.step serde (.appendEntry args [])) (count + 1) := by
  obtain ⟨chunks, writer, tracks, rfl, present, full, number⟩ := filling
  obtain ⟨written, later, stepped, stays, appended, seq, -, shape⟩ :=
    tracks.append present args (goesThrough_nil _) number
  rcases shape with ⟨notFull, -⟩ | ⟨-, rfl⟩
  · rw [full] at notFull
    cases notFull
  · have rotates := (stepped.atEnd written stays).rotates fills chunks rfl
    exact ⟨_, written, stepped, by simp, stays, rotates, seq.trans appended.symm⟩

theorem Filling.many (fills : FillsFile serde args)
    (filling : Filling serde world count) (more : Nat) :
    Filling serde (world.after serde (List.replicate more (.appendEntry args []))) (count + more) := by
  induction more generalizing world count with
  | zero => exact filling
  | succ more ih =>
    rw [replicate_succ, World.after_cons, Nat.add_comm more, ← Nat.add_assoc]
    exact ih (filling.next fills)

def overrunSessions (args : AppendArgs Value) : List (Session Value) :=
  [{ openedAt := args.now, appends := List.replicate 10000 args }]

theorem overrunSessions_overrun (fills : FillsFile serde args) :
    ∃ chunks, Overrun serde
      (World.fresh.after serde (sessionEvents (overrunSessions args))) chunks := by
  have ends : Ends serde World.fresh (sessionEvents (overrunSessions args))
      (0 + appendCount (overrunSessions args)) := Sound.fresh.sessions _
  apply ends.resolve_left _ |>.2
  rintro ⟨inOrder, -⟩
  have appends : ∀ count, List.replicate (count + 2) (LogEvent.appendEntry args []) =
      .appendEntry args [] ::
        (List.replicate count (.appendEntry args []) ++ [.appendEntry args []]) := by
    intro count
    rw [replicate_succ, replicate_succ']
  have events : sessionEvents (overrunSessions args) =
      [.openLog args.now [], .appendEntry args []] ++
        (List.replicate 9998 (.appendEntry args []) ++ [.appendEntry args []]) := by
    rw [sessionEvents, overrunSessions, flatMap_singleton, Session.events, map_replicate,
      appends 9998]
    rfl
  rw [events, World.throughout_append, World.throughout_append] at inOrder
  obtain ⟨chunks, writer, tracks, length, present, full, -⟩ :=
    (Filling.first fills).many fills 9998
  have below := inOrder.2.2.1 writer present full
  rw [tracks.log.toHolds.fileCount_eq, length] at below
  exact absurd below (by decide)

def bigAppend : AppendArgs Json :=
  { sampleAppend with content := .str (String.ofList (List.replicate maxFileBytes 'a')) }

theorem bigAppend_fillsFile (now : Int) : FillsFile jsonSerde { bigAppend with now := now } := by
  intro writer
  have inLine := length_content_le (writer.entryFor jsonSerde { bigAppend with now := now })
  have content : maxFileBytes ≤ bigAppend.content.print.length := by
    have printed := Json.length_le_print_str (String.ofList (List.replicate maxFileBytes 'a'))
    rwa [String.length_ofList, length_replicate] at printed
  exact Nat.le_trans content inLine

/-- Ten thousand big appends, and the verifier does not count them. -/
theorem overrunSessions_not_verified :
    appendCount (overrunSessions bigAppend) = 10000 ∧
      verifyChain jsonSerde "/data/sessions"
          (World.fresh.after jsonSerde (sessionEvents (overrunSessions bigAppend))).dir ≠
        .ok (appendCount (overrunSessions bigAppend)) := by
  obtain ⟨chunks, overrun⟩ := overrunSessions_overrun (bigAppend_fillsFile bigAppend.now)
  refine ⟨?_, overrun.rejected "/data/sessions" _⟩
  rw [overrunSessions, appendCount_cons, length_replicate]
  rfl

variable {Value : Type} (serde : SerdeJson Value)

def hashInputs (entries : List (ProvenanceEntry Value)) : Set Bytes :=
  { input | ∃ entry ∈ entries, input = hashInput serde entry.prevHash entry.payload }

variable {serde} {entries others : List (ProvenanceEntry Value)}
  {entry other : ProvenanceEntry Value}

theorem hash_eq_of_mem (linked : (chainFormat serde).Linked 1 genesisHash entries)
    (member : entry ∈ entries) :
    entry.hash = Sha256.sha256Hex (hashInput serde entry.prevHash entry.payload) :=
  linked.sealed_of_mem member

theorem length_prevHash (linked : (chainFormat serde).Linked 1 genesisHash entries)
    (member : entry ∈ entries) : (utf8 entry.prevHash).length = 64 := by
  rcases linked.prev_of_mem member with genesis | ⟨earlier, earlierMember, previous⟩
  · have first : entry.prevHash = genesisHash := genesis
    rw [first]
    decide +kernel
  · have stored : entry.prevHash = earlier.hash := previous
    rw [stored, hash_eq_of_mem linked earlierMember, Sha256.length_utf8_sha256Hex]

/-- Where SHA-256 has no collision, the hash of an accepted entry determines the entry. -/
theorem entry_eq_of_hash_eq (linked : (chainFormat serde).Linked 1 genesisHash entries)
    (otherLinked : (chainFormat serde).Linked 1 genesisHash others)
    (injective : Set.InjOn Sha256.sha256 (hashInputs serde entries ∪ hashInputs serde others))
    (member : entry ∈ entries) (otherMember : other ∈ others)
    (sameHash : entry.hash = other.hash) : entry = other := by
  have digests : Sha256.sha256 (hashInput serde entry.prevHash entry.payload) =
      Sha256.sha256 (hashInput serde other.prevHash other.payload) := by
    apply hexEncode_injective
    change Sha256.sha256Hex _ = Sha256.sha256Hex _
    rw [← hash_eq_of_mem linked member, ← hash_eq_of_mem otherLinked otherMember, sameHash]
  have inputs : hashInput serde entry.prevHash entry.payload =
      hashInput serde other.prevHash other.payload :=
    injective (Or.inl ⟨entry, member, rfl⟩) (Or.inr ⟨other, otherMember, rfl⟩) digests
  -- The previous hashes have one length, so the inputs split at the same place.
  have lengths : (utf8 entry.prevHash).length = (utf8 other.prevHash).length := by
    rw [length_prevHash linked member, length_prevHash otherLinked otherMember]
  obtain ⟨-, payloadBytes⟩ := List.append_inj inputs lengths
  have payloads : entry.payload = other.payload := serde.toVec_injective payloadBytes
  cases entry
  cases other
  simp_all [ProvenanceEntry.payload]

/-- The last hash of an accepted log binds all of it; and no accepted log can be made from another by
deleting or moving entries, except by cutting it off at the end. -/
theorem accepted_logs_tamper_evident (serde : SerdeJson Value) (dirPath otherPath : String)
    (dir other : SessionsDir) (count otherCount : Nat)
    (accepted : verifyChain serde dirPath dir = .ok count)
    (otherAccepted : verifyChain serde otherPath other = .ok otherCount)
    (entries others : List (ProvenanceEntry Value)) (parsed : logEntries serde dir = some entries)
    (otherParsed : logEntries serde other = some others) :
    (Set.InjOn Sha256.sha256 (hashInputs serde entries ∪ hashInputs serde others) →
        ∀ last otherLast, entries.getLast? = some last → others.getLast? = some otherLast →
          last.hash = otherLast.hash → entries = others) ∧
      (others.Subperm entries → others <+: entries) := by
  obtain ⟨_, sameParsed, linked, -⟩ := (verifyChain_ok_iff serde).mp accepted
  obtain rfl := Option.some.inj (parsed.symm.trans sameParsed)
  obtain ⟨_, sameOther, otherLinked, -⟩ := (verifyChain_ok_iff serde).mp otherAccepted
  obtain rfl := Option.some.inj (otherParsed.symm.trans sameOther)
  constructor
  · intro injective last otherLast isLast isOtherLast sameHash
    apply linked.eq_of_tip_eq otherLinked
    · intro entry member other otherMember
      exact entry_eq_of_hash_eq linked otherLinked injective member otherMember
    · rintro rfl
      simp at isLast
    · rintro rfl
      simp at isOtherLast
    · rw [ChainFormat.tip, ChainFormat.tip, isLast, isOtherLast]
      exact sameHash
  · intro part
    exact linked.prefix_of_subset otherLinked part.subset

def sampleEntry : ProvenanceEntry Json :=
  ProvenanceWriter.entryFor jsonSerde
    { file := 0, seq := 0, lastHash := genesisHash, fileBytes := 0 } sampleAppend

theorem linked_sampleEntry : (chainFormat jsonSerde).Linked 1 genesisHash ([] ++ [sampleEntry]) :=
  linked_nextEntry _ _ _ _ trivial rfl rfl

def oneFile : SessionsDir :=
  (SessionsDir.empty.create (sessionName 1) 0 rfl).appendTo 0 (entryLine jsonSerde sampleEntry) 0

def twoFiles : SessionsDir :=
  ((SessionsDir.empty.create (sessionName 1) 0 rfl).create (sessionName 2) 0 (by decide)).appendTo 1
    (entryLine jsonSerde sampleEntry) 0

theorem holds_oneFile : Holds jsonSerde oneFile [[sampleEntry]] :=
  (Holds.empty.create 0).appendTo rfl (SessionsDir.find_create_same rfl) sampleEntry 0

theorem holds_twoFiles : Holds jsonSerde twoFiles [[], [sampleEntry]] :=
  ((Holds.empty.create 0).create 0).appendTo rfl (SessionsDir.find_create_same _) sampleEntry 0

theorem layouts_hold_one_log :
    verifyChain jsonSerde "/data/sessions" oneFile = .ok 1 ∧
      verifyChain jsonSerde "/backup/sessions" twoFiles = .ok 1 ∧
      logEntries jsonSerde oneFile = logEntries jsonSerde twoFiles := by
  have first : logEntries jsonSerde oneFile = some [sampleEntry] :=
    holds_oneFile.logEntries_eq (by simp)
  have second : logEntries jsonSerde twoFiles = some [sampleEntry] :=
    holds_twoFiles.logEntries_eq (by simp)
  have accepted : verifyChain jsonSerde "/data/sessions" oneFile = .ok 1 :=
    (verifyChain_ok_iff jsonSerde).mpr ⟨_, first, linked_sampleEntry, rfl⟩
  have otherAccepted : verifyChain jsonSerde "/backup/sessions" twoFiles = .ok 1 :=
    (verifyChain_ok_iff jsonSerde).mpr ⟨_, second, linked_sampleEntry, rfl⟩
  have inputs : hashInputs jsonSerde [sampleEntry] ∪ hashInputs jsonSerde [sampleEntry] =
      {hashInput jsonSerde sampleEntry.prevHash sampleEntry.payload} := by
    ext input
    simp [hashInputs]
  have same := (accepted_logs_tamper_evident jsonSerde "/data/sessions" "/backup/sessions" oneFile
    twoFiles 1 1 accepted otherAccepted _ _ first second).1
    (by rw [inputs]; exact Set.injOn_singleton _ _) _ _ rfl rfl rfl
  refine ⟨accepted, otherAccepted, ?_⟩
  rw [first, second, same]

variable {Value : Type} (serde : SerdeJson Value)

def leadingEntries (dir : SessionsDir) : Nat :=
  ((entriesOf serde dir (firstNames 1000)).getD []).length

variable {serde}

theorem rejected_iff_not_accepted {dirPath : String} {dir : SessionsDir} :
    (∃ message, verifyChain serde dirPath dir = .error message) ↔
      ∀ count, verifyChain serde dirPath dir ≠ .ok count := by
  cases verifyChain serde dirPath dir <;> simp

theorem rejected_iff {dirPath : String} {dir : SessionsDir} {entries : List (ProvenanceEntry Value)}
    (parsed : logEntries serde dir = some entries) :
    (∃ message, verifyChain serde dirPath dir = .error message) ↔
      ¬ (chainFormat serde).Linked 1 genesisHash entries := by
  rw [rejected_iff_not_accepted]
  constructor
  · intro rejected linked
    exact rejected _ ((verifyChain_ok_iff serde).mpr ⟨entries, parsed, linked, rfl⟩)
  · intro notLinked count accepted
    obtain ⟨_, same, linked, -⟩ := (verifyChain_ok_iff serde).mp accepted
    obtain rfl := Option.some.inj (parsed.symm.trans same)
    exact notLinked linked

/-- Cutting the last entries off a log that was written without failures is noticed only if the log
has ten thousand files or more, and the cut leaves more than what its first thousand files hold: the
part that is left is then out of order, as the whole log was. -/
theorem truncated_rejected_iff (serde : SerdeJson Value) (cutPath : String)
    (sessions : List (Session Value)) (entries : List (ProvenanceEntry Value))
    (parsed : logEntries serde (World.fresh.after serde (sessionEvents sessions)).dir = some entries)
    (removed : Nat) (cut : SessionsDir)
    (isCut : logEntries serde cut = some (entries.take (entries.length - removed))) :
    (∃ message, verifyChain serde cutPath cut = .error message) ↔
      10000 ≤ (World.fresh.after serde (sessionEvents sessions)).dir.fileCount ∧
        leadingEntries serde (World.fresh.after serde (sessionEvents sessions)).dir <
          entries.length - removed := by
  rw [rejected_iff isCut]
  have ends : Ends serde World.fresh (sessionEvents sessions) (0 + appendCount sessions) :=
    Sound.fresh.sessions sessions
  rcases ends with ⟨-, ⟨chunks, tracks, few, -⟩, -⟩ | ⟨-, chunks, overrun⟩
  · have whole := tracks.log.toHolds.logEntries_eq few
    obtain rfl := Option.some.inj (parsed.symm.trans whole)
    apply iff_of_false
    · exact not_not_intro (tracks.log.linked.of_prefix (List.take_prefix _ _))
    · rw [tracks.log.toHolds.fileCount_eq]
      exact fun many => Nat.not_le_of_lt few many.1
  · have enough : 1000 ≤ chunks.length := Nat.le_trans (by decide) overrun.many
    have leading : leadingEntries serde (World.fresh.after serde (sessionEvents sessions)).dir =
        (chunks.take 1000).flatten.length := by
      rw [leadingEntries, overrun.holds.entriesOf_firstNames enough]
      rfl
    rw [overrun.linked_take_iff parsed (Nat.sub_le _ _), leading, overrun.holds.fileCount_eq]
    constructor
    · intro beyond
      exact ⟨overrun.many, Nat.lt_of_not_le beyond⟩
    · intro both
      exact Nat.not_le_of_lt both.2

def sampleSessions (count : Nat) : List (Session Json) :=
  [{ openedAt := sampleAppend.now, appends := List.replicate count sampleAppend }]

theorem sessionEvents_one : sessionEvents (sampleSessions 1) =
    [.openLog sampleAppend.now [], .appendEntry sampleAppend []] := rfl

theorem sessionEvents_two : sessionEvents (sampleSessions 2) =
    [.openLog sampleAppend.now [], .appendEntry sampleAppend [], .appendEntry sampleAppend []] := rfl

theorem sampleSessions_entries :
    ∃ first second,
      logEntries jsonSerde (World.fresh.after jsonSerde (sessionEvents (sampleSessions 1))).dir =
        some [first] ∧
      logEntries jsonSerde (World.fresh.after jsonSerde (sessionEvents (sampleSessions 2))).dir =
        some [first, second] ∧
      (World.fresh.after jsonSerde (sessionEvents (sampleSessions 2))).dir.fileCount < 10000 ∧
      (chainFormat jsonSerde).Linked 1 genesisHash [first] := by
  obtain ⟨written, once, tracks, present, appended, seq, flat, shape⟩ :=
    (Tracks.opened jsonSerde sampleAppend.now).append (by rw [step_open_fresh]) sampleAppend
      (goesThrough_nil _) (by rw [step_open_fresh])
  have onceLength : once.length ≤ 2 := by
    rcases shape with ⟨-, length⟩ | ⟨-, rfl⟩
    · rw [length]
      decide
    · exact Nat.le_refl _
  obtain ⟨-, twice, later, -, -, -, laterFlat, laterShape⟩ :=
    tracks.append present sampleAppend (goesThrough_nil _) (seq.trans appended.symm)
  have twiceLength : twice.length ≤ 3 := by
    rcases laterShape with ⟨-, length⟩ | ⟨-, rfl⟩
    · omega
    · rw [List.length_append, List.length_singleton]
      omega
  have entries := tracks.log.toHolds.logEntries_eq (by omega)
  have laterEntries := later.log.toHolds.logEntries_eq (by omega)
  have linked := tracks.log.linked
  have laterCount := later.log.toHolds.fileCount_eq
  rw [flat] at entries linked
  rw [laterFlat, flat] at laterEntries
  rw [sessionEvents_one, sessionEvents_two, World.after_cons, World.after_cons, World.after_nil,
    World.after_cons, World.after_cons, World.after_cons, World.after_nil]
  refine ⟨_, _, entries, laterEntries, ?_, linked⟩
  omega

/-- The last entry is gone and the verifier does not notice. -/
theorem sampleSessions_truncation_accepted :
    ∃ entries,
      logEntries jsonSerde (World.fresh.after jsonSerde (sessionEvents (sampleSessions 2))).dir =
        some entries ∧
      entries.length = 2 ∧
      logEntries jsonSerde (World.fresh.after jsonSerde (sessionEvents (sampleSessions 1))).dir =
        some (entries.take (2 - 1)) ∧
      verifyChain jsonSerde "/data/sessions"
        (World.fresh.after jsonSerde (sessionEvents (sampleSessions 1))).dir = .ok 1 := by
  obtain ⟨first, second, once, twice, -, linked⟩ := sampleSessions_entries
  exact ⟨[first, second], twice, rfl, once,
    (verifyChain_ok_iff jsonSerde).mpr ⟨_, once, linked, rfl⟩⟩

theorem sampleSessions_truncation_not_rejected :
    ¬ ∃ message, verifyChain jsonSerde "/data/sessions"
      (World.fresh.after jsonSerde (sessionEvents (sampleSessions 1))).dir = .error message := by
  obtain ⟨first, second, once, twice, few, -⟩ := sampleSessions_entries
  intro rejected
  have needed := (truncated_rejected_iff jsonSerde "/data/sessions" (sampleSessions 2)
    [first, second] twice 1 (World.fresh.after jsonSerde (sessionEvents (sampleSessions 1))).dir
    once).mp rejected
  exact Nat.not_le_of_lt few needed.1

end NuraOS.Provenance
