/-
Purpose: The abstract log behind a sessions directory, and what the writer does to it, call by call.
-/
import NuraOS.Foundation.Codec
import NuraOS.Provenance.Log

namespace NuraOS.Provenance

open Foundation List

theorem toList_sessionName (n : Nat) :
    (sessionName n).toList = "session-".toList ++ (padDigits 4 n ++ ".jsonl".toList) := by
  simp [sessionName]

@[simp] theorem isJsonl_sessionName (n : Nat) : isJsonl (sessionName n) = true := by
  have ending : ".jsonl".toList <:+ (sessionName n).toList :=
    ⟨"session-".toList ++ padDigits 4 n, by rw [toList_sessionName, append_assoc]⟩
  have long : 6 < (sessionName n).length := by
    rw [← String.length_toList, toList_sessionName]
    simp only [length_append]
    have prefixLength : "session-".toList.length = 8 := rfl
    omega
  simp only [isJsonl, Bool.and_eq_true, decide_eq_true_eq]
  exact ⟨isSuffixOf_iff_suffix.mpr ending, long⟩

theorem sessionName_injective : Function.Injective sessionName := by
  intro first second equality
  have texts := congrArg String.toList equality
  rw [toList_sessionName, toList_sessionName] at texts
  exact padDigits_injective (append_cancel_right (append_cancel_left texts))

variable {first second n count : Nat} {name : String} {names : List String}

private theorem sessionName_lt_of_digits
    (less : padDigits 4 first ++ ".jsonl".toList < padDigits 4 second ++ ".jsonl".toList) :
    sessionName first < sessionName second := by
  rw [String.lt_iff_toList_lt, toList_sessionName, toList_sessionName]
  exact append_left_lt less

theorem sessionName_lt (less : first < second) (fits : second < 10000) :
    sessionName first < sessionName second := by
  apply sessionName_lt_of_digits
  apply append_lt_append
  · rw [length_padDigits (by decide) (by omega), length_padDigits (by decide) (by omega)]
  · exact padDigits_lt (by omega) less

private theorem digits_10000 : padDigits 4 10000 = padDigits 4 1000 ++ ['0'] := by
  decide

theorem sessionName_lt_overrun (early : n ≤ 1000) : sessionName n < sessionName 10000 := by
  apply sessionName_lt_of_digits
  rw [digits_10000, append_assoc]
  rcases Nat.lt_or_eq_of_le early with less | rfl
  · apply append_lt_append
    · rw [length_padDigits (by decide) (by omega), length_padDigits (by decide) (by omega)]
    · exact padDigits_lt (by omega) less
  · apply append_left_lt
    decide

theorem overrun_le_sessionName (late : 1000 < n) : sessionName 10000 ≤ sessionName n := by
  by_cases fits : n < 10000
  · apply le_of_lt
    apply sessionName_lt_of_digits
    rw [digits_10000, append_assoc]
    apply append_lt_append
    · rw [length_padDigits (by decide) (by omega), length_padDigits (by decide) (by omega)]
    · exact padDigits_lt (by omega) late
  · rcases Nat.lt_or_eq_of_le (Nat.le_of_not_lt fits) with wide | rfl
    · apply le_of_lt
      apply sessionName_lt_of_digits
      exact wide_lt (by decide) (wide : 10 ^ 4 < n) (by decide : '.' < '0') "jsonl".toList
    · exact le_refl _

/-- The names of the first `count` files, in the order they are created. -/
def firstNames (count : Nat) : List String :=
  (List.range count).map fun index => sessionName (index + 1)

@[simp] theorem length_firstNames (count : Nat) : (firstNames count).length = count := by
  simp [firstNames]

theorem firstNames_succ (count : Nat) :
    firstNames (count + 1) = firstNames count ++ [sessionName (count + 1)] := by
  simp [firstNames, range_succ]

theorem nodup_firstNames (count : Nat) : (firstNames count).Nodup := by
  apply List.Nodup.map _ nodup_range
  intro first second equality
  exact Nat.succ_injective (sessionName_injective equality)

theorem mem_firstNames :
    name ∈ firstNames count ↔ ∃ index < count, sessionName (index + 1) = name := by
  simp [firstNames]

theorem sessionName_mem_firstNames {number : Nat} :
    sessionName number ∈ firstNames count ↔ 0 < number ∧ number ≤ count := by
  rw [mem_firstNames]
  constructor
  · rintro ⟨index, bound, equality⟩
    have same := sessionName_injective equality
    omega
  · rintro ⟨positive, bound⟩
    exact ⟨number - 1, by omega, by rw [Nat.sub_add_cancel positive]⟩

theorem sortedFiles_eq {sorted : List String} (perm : (names.filter isJsonl).Perm sorted)
    (ordered : sorted.Pairwise (· ≤ ·)) : sortedFiles names = sorted := by
  have sortedPerm : (sortedFiles names).Perm sorted :=
    (perm_insertionSort _ _).trans perm
  exact sortedPerm.eq_of_pairwise' (pairwise_insertionSort _ _) ordered

theorem firstNames_sorted (few : count < 10000) : (firstNames count).Pairwise (· ≤ ·) := by
  rw [firstNames, pairwise_map]
  refine (pairwise_lt_range).imp_of_mem ?_
  intro first second _ secondMember less
  have bound := mem_range.mp secondMember
  exact le_of_lt (sessionName_lt (by omega) (by omega))

/-- The names of `count` files that come after the first `start`. -/
def namesAfter (start count : Nat) : List String :=
  (List.range' start count).map fun index => sessionName (index + 1)

theorem firstNames_add (start count : Nat) :
    firstNames (start + count) = firstNames start ++ namesAfter start count := by
  rw [firstNames, firstNames, namesAfter, ← map_append, range_add,
    range'_eq_map_range]

theorem mem_namesAfter {start : Nat} :
    name ∈ namesAfter start count ↔
      ∃ index, start ≤ index ∧ index < start + count ∧ name = sessionName (index + 1) := by
  simp only [namesAfter, mem_map, mem_range'_1]
  constructor
  · rintro ⟨index, bounds, rfl⟩
    exact ⟨index, bounds.1, bounds.2, rfl⟩
  · rintro ⟨index, lower, upper, rfl⟩
    exact ⟨index, ⟨lower, upper⟩, rfl⟩

/-- With the ten-thousandth file the sorted order is no longer the order of creation: that file comes
right after the thousandth. -/
theorem sortedFiles_overrun
    (perm : (names.filter isJsonl).Perm (firstNames count)) (many : 10000 ≤ count) :
    ∃ others, sortedFiles names = firstNames 1000 ++ sessionName 10000 :: others ∧
      ∀ name ∈ others, ∃ index, 1000 ≤ index ∧ index < count ∧ name = sessionName (index + 1) := by
  let unsorted := namesAfter 1000 8999 ++ namesAfter 10000 (count - 10000)
  have memberOf : ∀ name ∈ unsorted.insertionSort (· ≤ ·),
      ∃ index, 1000 ≤ index ∧ index < count ∧ name = sessionName (index + 1) := by
    intro name member
    rcases mem_append.mp ((mem_insertionSort _).mp member) with earlier | later
    · obtain ⟨index, lower, upper, rfl⟩ := mem_namesAfter.mp earlier
      exact ⟨index, lower, by omega, rfl⟩
    · obtain ⟨index, lower, upper, rfl⟩ := mem_namesAfter.mp later
      exact ⟨index, by omega, by omega, rfl⟩
  have whole : firstNames count =
      firstNames 1000 ++ (namesAfter 1000 8999 ++
        sessionName 10000 :: namesAfter 10000 (count - 10000)) := by
    obtain ⟨more, rfl⟩ := Nat.exists_eq_add_of_le many
    have upTo : firstNames 9999 = firstNames 1000 ++ namesAfter 1000 8999 := firstNames_add 1000 8999
    have next : firstNames 10000 = firstNames 9999 ++ [sessionName 10000] := firstNames_succ 9999
    rw [firstNames_add, next, upTo, Nat.add_sub_cancel_left]
    simp only [append_assoc, singleton_append]
  refine ⟨unsorted.insertionSort (· ≤ ·), sortedFiles_eq ?_ ?_, memberOf⟩
  · refine perm.trans ?_
    rw [whole]
    apply List.Perm.append_left
    exact perm_middle.trans (List.Perm.cons _ (perm_insertionSort _ _).symm)
  · refine pairwise_append.mpr ⟨firstNames_sorted (by decide),
      pairwise_cons.mpr ⟨?_, pairwise_insertionSort _ _⟩, ?_⟩
    · intro name member
      obtain ⟨index, lower, -, rfl⟩ := memberOf name member
      exact overrun_le_sessionName (by omega)
    · intro early earlyMember late lateMember
      obtain ⟨position, bound, rfl⟩ := mem_firstNames.mp earlyMember
      have before : sessionName (position + 1) ≤ sessionName 10000 :=
        le_of_lt (sessionName_lt_overrun (by omega))
      rcases mem_cons.mp lateMember with rfl | other
      · exact before
      · obtain ⟨index, lower, -, rfl⟩ := memberOf late other
        exact le_trans before (overrun_le_sessionName (by omega))

/-! ### The verifier -/

variable {Value : Type} (serde : SerdeJson Value)

def chainFormat : ChainFormat (ProvenanceEntry Value) String where
  seq := fun entry => entry.seq
  prev := fun entry => entry.prevHash
  stored := fun entry => entry.hash
  recomputed := fun entry => computeHash serde entry.prevHash entry.payload

/-- The entries of a file's lines; nothing when some line that is not blank does not parse. -/
def parseLines : List (Option String) → Option (List (ProvenanceEntry Value))
  | [] => some []
  | none :: _ => none
  | some line :: rest =>
    if isBlank line then
      parseLines rest
    else
      match serde.fromStr line with
      | .error _ => none
      | .ok entry => (parseLines rest).map (entry :: ·)

def entriesOf (dir : SessionsDir) : List String → Option (List (ProvenanceEntry Value))
  | [] => some []
  | name :: rest => do
    let bytes ← dir.read name
    let first ← parseLines serde (readLines bytes)
    let later ← entriesOf dir rest
    return first ++ later

def logEntries (dir : SessionsDir) : Option (List (ProvenanceEntry Value)) :=
  entriesOf serde dir (sortedFiles dir.names)

def VerifyState.advance (st : VerifyState) (entries : List (ProvenanceEntry Value)) : VerifyState :=
  { expectedPrev := (chainFormat serde).tip st.expectedPrev entries
    expectedSeq := st.expectedSeq + entries.length
    total := st.total + entries.length }

@[simp] theorem VerifyState.advance_nil (st : VerifyState) : st.advance serde [] = st := rfl

/-- What the lines parse to is linked to the entries before, and leads to this state. -/
def Accepted (st after : VerifyState) (parsed : Option (List (ProvenanceEntry Value))) : Prop :=
  ∃ entries, parsed = some entries ∧ (chainFormat serde).Linked st.expectedSeq st.expectedPrev entries ∧
    after = st.advance serde entries

variable {st after : VerifyState} {path dirPath : String} {ln : Nat} {dir : SessionsDir}

theorem verifyEntry_ok_iff {place : String} {entry : ProvenanceEntry Value} :
    verifyEntry serde place entry st = .ok after ↔
      (chainFormat serde).Linked st.expectedSeq st.expectedPrev [entry] ∧
        after = st.advance serde [entry] := by
  have advanced : st.advance serde [entry] =
      { expectedPrev := entry.hash, expectedSeq := st.expectedSeq + 1, total := st.total + 1 } :=
    rfl
  rw [ChainFormat.linked_singleton, advanced]
  simp only [verifyEntry, chainFormat]
  split_ifs with seq prev hash
  · simp [seq]
  · simp [prev]
  · simp [hash]
  · simp_all [eq_comm]

theorem accepted_append {first later : Option (List (ProvenanceEntry Value))} :
    Accepted serde st after (first.bind fun entries => later.map (entries ++ ·)) ↔
      ∃ middle, Accepted serde st middle first ∧ Accepted serde middle after later := by
  have advances (one two : List (ProvenanceEntry Value)) :
      st.advance serde (one ++ two) = (st.advance serde one).advance serde two := by
    simp only [VerifyState.advance, ChainFormat.tip_append, List.length_append, Nat.add_assoc]
  constructor
  · rintro ⟨entries, parsed, linked, rfl⟩
    obtain ⟨one, rfl, more⟩ := Option.bind_eq_some_iff.mp parsed
    obtain ⟨two, rfl, rfl⟩ := Option.map_eq_some_iff.mp more
    obtain ⟨oneLinked, twoLinked⟩ := ChainFormat.linked_append.mp linked
    exact ⟨_, ⟨one, rfl, oneLinked, rfl⟩, two, rfl, twoLinked, advances one two⟩
  · rintro ⟨_, ⟨one, rfl, oneLinked, rfl⟩, two, rfl, twoLinked, rfl⟩
    exact ⟨one ++ two, rfl, ChainFormat.linked_append.mpr ⟨oneLinked, twoLinked⟩, (advances one two).symm⟩

theorem verifyLine_ok_iff {line : Option String} :
    verifyLine serde path ln line st = .ok after ↔ Accepted serde st after (parseLines serde [line]) := by
  unfold verifyLine
  cases line with
  | none => simp [parseLines, Accepted]
  | some line =>
    by_cases blank : isBlank line = true
    · simp [parseLines, Accepted, blank, ChainFormat.Linked, eq_comm]
    · cases parsed : serde.fromStr line with
      | error e => simp [parseLines, Accepted, blank, parsed]
      | ok entry => simp [parseLines, Accepted, blank, parsed, verifyEntry_ok_iff]

theorem parseLines_cons (line : Option String) (rest : List (Option String)) :
    parseLines serde (line :: rest) =
      (parseLines serde [line]).bind fun first =>
        (parseLines serde rest).map (first ++ ·) := by
  cases line with
  | none => rfl
  | some line =>
    by_cases blank : isBlank line = true
    · cases later : parseLines serde rest <;> simp [parseLines, blank, later]
    · cases parsed : serde.fromStr line <;> simp [parseLines, blank, parsed]

theorem verifyLines_ok_iff {lines : List (Option String)} :
    verifyLines serde path ln lines st = .ok after ↔ Accepted serde st after (parseLines serde lines) := by
  induction lines generalizing ln st with
  | nil => simp [verifyLines, parseLines, Accepted, ChainFormat.Linked, eq_comm]
  | cons line rest ih =>
    rw [parseLines_cons, accepted_append]
    simp only [verifyLines, Codec.bind_eq_ok_iff, verifyLine_ok_iff, ih]

theorem verifyFiles_ok_iff {names : List String} :
    verifyFiles serde dirPath dir names st = .ok after ↔ Accepted serde st after (entriesOf serde dir names) := by
  induction names generalizing st with
  | nil => simp [verifyFiles, entriesOf, Accepted, ChainFormat.Linked, eq_comm]
  | cons name rest ih =>
    cases found : dir.read name with
    | none => simp [verifyFiles, entriesOf, Accepted, found]
    | some bytes =>
      have shape : entriesOf serde dir (name :: rest) =
          (parseLines serde (readLines bytes)).bind fun first => (entriesOf serde dir rest).map (first ++ ·) := by
        simp [entriesOf, found, Option.map_eq_bind]
      rw [shape, accepted_append]
      simp only [verifyFiles, found, Codec.bind_eq_ok_iff, verifyLines_ok_iff, ih]

/-- `verify_chain` accepts exactly the directories whose lines are a hash chain from the genesis hash,
and counts its entries. -/
theorem verifyChain_ok_iff {count : Nat} :
    verifyChain serde dirPath dir = .ok count ↔
      ∃ entries, logEntries serde dir = some entries ∧
        (chainFormat serde).Linked 1 genesisHash entries ∧ entries.length = count := by
  unfold verifyChain logEntries
  cases sorted : sortedFiles dir.names with
  | nil => simp [entriesOf, ChainFormat.Linked]
  | cons name rest =>
    simp only [List.isEmpty_cons, Bool.false_eq_true, if_false, Codec.bind_eq_ok_iff,
      verifyFiles_ok_iff]
    constructor
    · rintro ⟨_, ⟨entries, parsed, linked, rfl⟩, counted⟩
      refine ⟨entries, parsed, linked, ?_⟩
      simpa [VerifyState.advance, pure, Except.pure] using counted
    · rintro ⟨entries, parsed, linked, rfl⟩
      refine ⟨_, ⟨entries, parsed, linked, rfl⟩, ?_⟩
      simp [VerifyState.advance, pure, Except.pure]

open SessionsDir

variable {Value : Type} (serde : SerdeJson Value)

def entryLine (entry : ProvenanceEntry Value) : Bytes :=
  utf8 (serde.toString entry ++ "\n")

def render (entries : List (ProvenanceEntry Value)) : Bytes :=
  entries.flatMap (entryLine serde)

theorem entryLine_eq (entry : ProvenanceEntry Value) :
    entryLine serde entry = utf8 (serde.toString entry) ++ [newline] := by
  rw [entryLine, utf8_append]
  rfl

theorem entryLine_ne_nil (entry : ProvenanceEntry Value) : entryLine serde entry ≠ [] := by
  simp [entryLine_eq]

@[simp] theorem render_nil : render serde [] = [] := rfl

theorem render_append (first second : List (ProvenanceEntry Value)) :
    render serde (first ++ second) = render serde first ++ render serde second := by
  simp [render]

theorem render_singleton (entry : ProvenanceEntry Value) :
    render serde [entry] = entryLine serde entry := by
  simp [render]

private theorem last_ne_return (entry : ProvenanceEntry Value) :
    (serde.toString entry).toList.getLast? ≠ some '\r' := by
  obtain ⟨body, shape⟩ := serde.object entry
  rw [shape, getLast?_concat]
  decide

theorem isBlank_toString (entry : ProvenanceEntry Value) :
    isBlank (serde.toString entry) = false := by
  obtain ⟨body, shape⟩ := serde.object entry
  have brace : Foundation.RustText.isWhitespace '{' = false := by decide
  simp [isBlank, shape, brace]

theorem readLines_render (entries : List (ProvenanceEntry Value)) :
    readLines (render serde entries) = entries.map fun entry => some (serde.toString entry) := by
  induction entries with
  | nil => rfl
  | cons entry rest ih =>
    have split : render serde (entry :: rest) =
        utf8 (serde.toString entry) ++ newline :: render serde rest := by
      simp [render, entryLine_eq]
    rw [split, readLines_cons (serde.newline_not_mem entry) (last_ne_return serde entry),
      ih, map_cons]

theorem parseLines_render (entries : List (ProvenanceEntry Value)) :
    parseLines serde (readLines (render serde entries)) = some entries := by
  rw [readLines_render]
  induction entries with
  | nil => rfl
  | cons entry rest ih =>
    simp [parseLines, isBlank_toString, serde.fromStr_toString, ih]

theorem lastEntry_render (entries : List (ProvenanceEntry Value))
    (last : Option (ProvenanceEntry Value)) :
    lastEntry serde (readLines (render serde entries)) last = .ok (entries.getLast?.or last) := by
  rw [readLines_render]
  induction entries generalizing last with
  | nil => rfl
  | cons entry rest ih =>
    simp only [map_cons, lastEntry, isBlank_toString, serde.fromStr_toString,
      Bool.false_eq_true, if_false, ih]
    cases rest with
    | nil => rfl
    | cons next more => simp [getLast?_cons]

/-! ### Chunks -/

/-- The session files are the first ones by number, and file `index + 1` holds chunk `index`. -/
structure Holds (dir : SessionsDir) (chunks : List (List (ProvenanceEntry Value))) : Prop where
  names : (dir.names.filter isJsonl).Perm (firstNames chunks.length)
  read : ∀ index chunk, chunks[index]? = some chunk →
    dir.read (sessionName (index + 1)) = some (render serde chunk)

variable {serde} {dir : SessionsDir} {chunks : List (List (ProvenanceEntry Value))}

theorem Holds.empty : Holds serde empty [] where
  names := .refl _
  read := by simp

theorem Holds.length_sortedFiles (holds : Holds serde dir chunks) :
    (sortedFiles dir.names).length = chunks.length := by
  rw [sortedFiles, (perm_insertionSort _ _).length_eq, holds.names.length_eq,
    length_firstNames]

theorem Holds.sessionName_mem (holds : Holds serde dir chunks) {number : Nat} :
    sessionName number ∈ dir.names ↔ 0 < number ∧ number ≤ chunks.length := by
  rw [← sessionName_mem_firstNames, ← holds.names.mem_iff, mem_filter]
  simp

theorem Holds.free (holds : Holds serde dir chunks) :
    dir.find (sessionName (chunks.length + 1)) = none := by
  apply find_eq_none_iff.mpr
  rw [holds.sessionName_mem]
  exact fun bounds => Nat.not_succ_le_self _ bounds.2

variable {index count : Nat} {kept : SessionFile → Bool}

theorem Holds.exists_find (holds : Holds serde dir chunks)
    (bound : index < chunks.length) : ∃ file, dir.find (sessionName (index + 1)) = some file :=
  exists_find_of_mem (holds.sessionName_mem.mpr ⟨Nat.succ_pos _, bound⟩)

theorem Holds.create (holds : Holds serde dir chunks) (now : Int) :
    Holds serde (dir.create (sessionName (chunks.length + 1)) now holds.free)
      (chunks ++ [[]]) where
  names := by
    rw [names_create, filter_append, length_append, length_singleton,
      firstNames_succ]
    apply List.Perm.append holds.names
    simp
  read := by
    intro index chunk found
    rcases Nat.lt_trichotomy index chunks.length with before | rfl | after
    · rw [getElem?_append_left before] at found
      have different : sessionName (index + 1) ≠ sessionName (chunks.length + 1) := fun equality =>
        Nat.ne_of_lt before (Nat.succ_injective (sessionName_injective equality))
      rw [SessionsDir.read, SessionsDir.find_create_other _ different]
      exact holds.read index chunk found
    · obtain rfl : [] = chunk := by simpa using found
      simp [SessionsDir.read]
    · have bound := (List.getElem?_eq_some_iff.mp found).1
      rw [length_append, length_singleton] at bound
      exact absurd (Nat.lt_succ_iff.mp bound) (Nat.not_le_of_lt after)

theorem Holds.appendTo (holds : Holds serde dir chunks)
    {chunk : List (ProvenanceEntry Value)} (inChunks : chunks[index]? = some chunk)
    {file : SessionFile} (found : dir.find (sessionName (index + 1)) = some file)
    (entry : ProvenanceEntry Value) (now : Int) :
    Holds serde (dir.appendTo file.inode (entryLine serde entry) now)
      (chunks.set index (chunk ++ [entry])) where
  names := by
    rw [names_appendTo, length_set]
    exact holds.names
  read := by
    intro other otherChunk otherInChunks
    have bound := (List.getElem?_eq_some_iff.mp inChunks).1
    by_cases same : other = index
    · subst same
      obtain rfl : chunk ++ [entry] = otherChunk := by
        simpa [getElem?_set_self bound] using otherInChunks
      have before := holds.read other chunk inChunks
      obtain ⟨readFile, readFound, data⟩ := read_eq_some_iff.mp before
      obtain rfl : file = readFile := Option.some.inj (found.symm.trans readFound)
      rw [read_appendTo_same found, data, render_append, render_singleton]
    · rw [getElem?_set_ne (Ne.symm same)] at otherInChunks
      have different : sessionName (other + 1) ≠ sessionName (index + 1) := fun equality =>
        same (Nat.succ_injective (sessionName_injective equality))
      rw [read_appendTo_other found different]
      exact holds.read other otherChunk otherInChunks

theorem Holds.keep (holds : Holds serde dir chunks)
    (bound : count ≤ chunks.length)
    (first : ∀ index file, index < chunks.length → dir.find (sessionName (index + 1)) = some file →
      (kept file = true ↔ index < count)) :
    Holds serde (dir.keep kept) (chunks.take count) where
  names := by
    rw [length_take_of_le bound]
    apply (perm_ext_iff_of_nodup ((dir.keep kept).namesNodup.filter _)
      (nodup_firstNames count)).mpr
    intro name
    rw [mem_filter, mem_firstNames]
    constructor
    · rintro ⟨member, jsonl⟩
      obtain ⟨file, inKept, rfl⟩ := mem_map.mp member
      obtain ⟨inDir, stays⟩ := mem_keep.mp inKept
      have inNames : file.name ∈ dir.names.filter isJsonl :=
        mem_filter.mpr ⟨mem_map_of_mem inDir, jsonl⟩
      obtain ⟨index, within, named⟩ := mem_firstNames.mp (holds.names.mem_iff.mp inNames)
      have found := find_eq_some_iff.mpr ⟨inDir, named.symm⟩
      exact ⟨index, (first index file within found).mp stays, named⟩
    · rintro ⟨index, below, rfl⟩
      have within := Nat.lt_of_lt_of_le below bound
      obtain ⟨file, found⟩ := holds.exists_find within
      have stays := (first index file within found).mpr below
      obtain ⟨inDir, named⟩ := find_eq_some_iff.mp found
      refine ⟨?_, isJsonl_sessionName _⟩
      rw [← named]
      exact mem_map_of_mem (mem_keep.mpr ⟨inDir, stays⟩)
  read := by
    intro index chunk inTake
    rw [getElem?_take] at inTake
    split at inTake
    · rename_i below
      obtain ⟨file, found, data⟩ :=
        read_eq_some_iff.mp (holds.read index chunk inTake)
      have within := (List.getElem?_eq_some_iff.mp inTake).1
      have stays := (first index file within found).mpr below
      exact read_eq_some_iff.mpr
        ⟨file, find_keep_of_kept found stays, data⟩
    · cases inTake

theorem entriesOf_append (dir : SessionsDir) (first second : List String) :
    entriesOf serde dir (first ++ second) =
      (entriesOf serde dir first).bind fun front =>
        (entriesOf serde dir second).map (front ++ ·) := by
  induction first with
  | nil => cases later : entriesOf serde dir second <;> simp [entriesOf, later]
  | cons name rest ih =>
    simp only [cons_append, entriesOf, ih]
    cases dir.read name with
    | none => rfl
    | some bytes =>
      cases parsed : parseLines serde (readLines bytes) <;>
        cases entriesOf serde dir rest <;>
        cases entriesOf serde dir second <;>
        simp [parsed]

theorem Holds.entriesOf_namesAfter (holds : Holds serde dir chunks)
    {part : List (List (ProvenanceEntry Value))} {start : Nat}
    (within : ∀ index chunk, part[index]? = some chunk → chunks[start + index]? = some chunk) :
    entriesOf serde dir (namesAfter start part.length) = some part.flatten := by
  induction part generalizing start with
  | nil => rfl
  | cons chunk rest ih =>
    have here := holds.read start chunk (within 0 chunk rfl)
    have later : entriesOf serde dir (namesAfter (start + 1) rest.length) = some rest.flatten := by
      apply ih
      intro index other found
      have shifted := within (index + 1) other (by simpa using found)
      rwa [Nat.add_right_comm, Nat.add_assoc]
    rw [namesAfter, length_cons, range'_succ, map_cons, ← namesAfter]
    simp [entriesOf, here, parseLines_render, later]

theorem Holds.entriesOf_firstNames (holds : Holds serde dir chunks) (bound : count ≤ chunks.length)
    : entriesOf serde dir (firstNames count) = some (chunks.take count).flatten := by
  have whole := firstNames_add 0 count
  rw [Nat.zero_add] at whole
  have taken : entriesOf serde dir (namesAfter 0 (chunks.take count).length) =
      some (chunks.take count).flatten := by
    apply holds.entriesOf_namesAfter
    intro index chunk found
    rw [getElem?_take] at found
    split at found <;> simp_all
  rw [length_take_of_le bound] at taken
  rw [whole]
  exact taken

theorem Holds.sortedFiles_eq (holds : Holds serde dir chunks) (few : chunks.length < 10000) :
    sortedFiles dir.names = firstNames chunks.length :=
  NuraOS.Provenance.sortedFiles_eq holds.names (firstNames_sorted few)

theorem Holds.logEntries_eq (holds : Holds serde dir chunks) (few : chunks.length < 10000) :
    logEntries serde dir = some chunks.flatten := by
  rw [logEntries, holds.sortedFiles_eq few, holds.entriesOf_firstNames (Nat.le_refl _),
    take_length]

variable (serde) in
/-- The chunks form a chain from the genesis hash, and no file is empty except the very first right
after it was created. -/
structure Log (dir : SessionsDir) (chunks : List (List (ProvenanceEntry Value))) : Prop
    extends Holds serde dir chunks where
  linked : (chainFormat serde).Linked 1 genesisHash chunks.flatten
  filled : chunks = [[]] ∨ [] ∉ chunks

theorem Log.empty : Log serde empty [] where
  toHolds := Holds.empty
  linked := trivial
  filled := Or.inr (by simp)

theorem Log.keep (log : Log serde dir chunks)
    (bound : count ≤ chunks.length)
    (first : ∀ index file, index < chunks.length → dir.find (sessionName (index + 1)) = some file →
      (kept file = true ↔ index < count)) :
    Log serde (dir.keep kept) (chunks.take count) where
  toHolds := log.toHolds.keep bound first
  linked := by
    have whole := log.linked
    rw [← take_append_drop count chunks, flatten_append] at whole
    exact (ChainFormat.linked_append.mp whole).1
  filled := by
    rcases log.filled with rfl | filled
    · cases count with
      | zero => exact Or.inr (by simp)
      | succ count => exact Or.inl (by simp)
    · exact Or.inr fun member => filled (mem_of_mem_take member)

theorem Log.verifyChain_eq (log : Log serde dir chunks) (few : chunks.length < 10000)
    (dirPath : String) : verifyChain serde dirPath dir = .ok chunks.flatten.length :=
  (verifyChain_ok_iff serde).mpr ⟨_, log.logEntries_eq few, log.linked, rfl⟩

/-! ### The writer -/

open Prog

variable {Value : Type} (serde : SerdeJson Value)

/-! ### Faults of one append

An append makes the calls `read_dir` and `open` when it rotates, then `write_all` and `flush`. -/

def writes (faults : List Fault) : Bool :=
  nextFault faults == .pass &&
    match nextFault faults.tail with
    | .crash _ => false
    | _ => true

def writesNothing (faults : List Fault) : Bool :=
  match nextFault faults with
  | .pass => false
  | .ioError amount => amount == 0
  | .crash amount => amount == 0

def rotatesNothing (faults : List Fault) : Bool :=
  match nextFault faults with
  | .pass =>
    match nextFault faults.tail with
    | .pass => false
    | .ioError _ => true
    | .crash amount => amount == 0
  | _ => true

/-- The append returns `Ok`. -/
def goesThrough (rotates : Bool) (faults : List Fault) : Bool :=
  if rotates then
    nextFault faults == .pass && nextFault faults.tail == .pass && writes faults.tail.tail
  else
    writes faults

def stopsEarly (rotates : Bool) (faults : List Fault) : Bool :=
  if rotates then rotatesNothing faults else writesNothing faults

def ProvenanceWriter.rotates (writer : ProvenanceWriter) : Bool :=
  decide (maxFileBytes ≤ writer.fileBytes)

def ProvenanceWriter.nextEntry (writer : ProvenanceWriter) (now : Int) (kind : EventKind)
    (turnId : String) (content : Value) : ProvenanceEntry Value :=
  ProvenanceWriter.newEntry serde { writer with seq := writer.seq + 1 } now kind turnId content

@[simp] theorem ProvenanceWriter.nextEntry_moved (writer : ProvenanceWriter) (file fileBytes : Nat)
    (now : Int) (kind : EventKind) (turnId : String) (content : Value) :
    ProvenanceWriter.nextEntry serde { writer with file := file, fileBytes := fileBytes } now kind
      turnId content = writer.nextEntry serde now kind turnId content := rfl

def ProvenanceWriter.wrote (writer : ProvenanceWriter) (entry : ProvenanceEntry Value) :
    ProvenanceWriter :=
  { writer with
    seq := writer.seq + 1
    lastHash := entry.hash
    fileBytes := writer.fileBytes + (entryLine serde entry).length }

section Runs

variable {serde} {dir : SessionsDir} {writer : ProvenanceWriter} {now : Int} {kind : EventKind}
  {turnId : String} {content : Value} {faults : List Fault}

theorem writeEntry_writes (through : writes faults = true) :
    ((writer.writeEntry serde now kind turnId content).run faults dir).outcome =
        .returned (.ok (), writer.wrote serde (writer.nextEntry serde now kind turnId content)) ∧
      ((writer.writeEntry serde now kind turnId content).run faults dir).store =
        dir.appendTo writer.file
          (entryLine serde (writer.nextEntry serde now kind turnId content)) now := by
  simp only [writes, Bool.and_eq_true, beq_iff_eq] at through
  obtain ⟨write, flushes⟩ := through
  simp only [ProvenanceWriter.writeEntry, writeAll, flush, perform, bind_eq, call_bind, ret_bind, pure_eq]
  rw [run_call_pass write]
  cases last : nextFault faults.tail with
  | pass =>
    rw [run_call_pass last]
    exact ⟨rfl, rfl⟩
  | ioError amount =>
    rw [run_call_ioError last]
    exact ⟨rfl, rfl⟩
  | crash amount => simp [last] at flushes

theorem writeEntry_writesNothing (nothing : writesNothing faults = true) :
    ((writer.writeEntry serde now kind turnId content).run faults dir).store = dir ∧
      (((writer.writeEntry serde now kind turnId content).run faults dir).outcome = .crashed ∨
        ((writer.writeEntry serde now kind turnId content).run faults dir).outcome =
          .returned (.error .device, { writer with seq := writer.seq + 1 })) := by
  simp only [ProvenanceWriter.writeEntry, writeAll, flush, perform, bind_eq, call_bind, ret_bind, pure_eq]
  cases fault : nextFault faults with
  | pass => simp [writesNothing, fault] at nothing
  | ioError amount =>
    obtain rfl : amount = 0 := by simpa [writesNothing, fault] using nothing
    rw [run_call_ioError fault]
    simp [sessionCalls]
  | crash amount =>
    obtain rfl : amount = 0 := by simpa [writesNothing, fault] using nothing
    rw [run_call_crash fault]
    simp

theorem rotate_passes (listed : nextFault faults = .pass) (opened : nextFault faults.tail = .pass) :
    (writer.rotate now).run faults dir =
      { outcome := .returned (.ok (),
          { writer with
            file := (dir.openAppend (sessionName ((sortedFiles dir.names).length + 1)) now).1
            fileBytes := 0 })
        faults := faults.tail.tail
        store := (dir.openAppend (sessionName ((sortedFiles dir.names).length + 1)) now).2 } := by
  simp only [ProvenanceWriter.rotate, readDir, openAppend, perform, bind_eq, call_bind, ret_bind, pure_eq]
  rw [run_call_pass listed]
  rw [run_call_pass opened]
  rfl

theorem rotate_rotatesNothing (nothing : rotatesNothing faults = true) :
    ((writer.rotate now).run faults dir).store = dir ∧
      (((writer.rotate now).run faults dir).outcome = .crashed ∨
        ((writer.rotate now).run faults dir).outcome = .returned (.error .device, writer)) := by
  simp only [ProvenanceWriter.rotate, readDir, openAppend, perform, bind_eq, call_bind, ret_bind, pure_eq]
  cases listed : nextFault faults with
  | pass =>
    rw [run_call_pass listed]
    cases opened : nextFault faults.tail with
    | pass => simp [rotatesNothing, listed, opened] at nothing
    | ioError amount =>
      rw [run_call_ioError opened]
      exact ⟨rfl, Or.inr rfl⟩
    | crash amount =>
      obtain rfl : amount = 0 := by simpa [rotatesNothing, listed, opened] using nothing
      rw [run_call_crash opened]
      exact ⟨rfl, Or.inl rfl⟩
  | ioError amount =>
    rw [run_call_ioError listed]
    exact ⟨rfl, Or.inr rfl⟩
  | crash amount =>
    rw [run_call_crash listed]
    exact ⟨rfl, Or.inl rfl⟩

theorem append_of_stays (stays : writer.rotates = false) :
    writer.append serde now kind turnId content =
      writer.writeEntry serde now kind turnId content := by
  have small : ¬ maxFileBytes ≤ writer.fileBytes := of_decide_eq_false stays
  rw [ProvenanceWriter.append, if_neg small]
  rfl

theorem append_of_rotates (full : writer.rotates = true) :
    writer.append serde now kind turnId content =
      (writer.rotate now).bind fun rotated =>
        match rotated.1 with
        | .error e => .ret (.error e, rotated.2)
        | .ok () => rotated.2.writeEntry serde now kind turnId content := by
  have big : maxFileBytes ≤ writer.fileBytes := of_decide_eq_true full
  rw [ProvenanceWriter.append, if_pos big]
  rfl

variable (serde dir now kind turnId content) in
/-- An append that stops early leaves the directory as it was; a writer that survives it has at most
taken a sequence number. -/
theorem append_stopsEarly (early : stopsEarly writer.rotates faults = true) :
    ((writer.append serde now kind turnId content).run faults dir).store = dir ∧
      (((writer.append serde now kind turnId content).run faults dir).outcome = .crashed ∨
        ∃ seq, ((writer.append serde now kind turnId content).run faults dir).outcome =
          .returned (.error .device, { writer with seq := seq })) := by
  cases full : writer.rotates with
  | false =>
    rw [stopsEarly, full] at early
    rw [append_of_stays full]
    obtain ⟨store, outcome⟩ := writeEntry_writesNothing early
    exact ⟨store, outcome.imp_right fun returned => ⟨_, returned⟩⟩
  | true =>
    rw [stopsEarly, full] at early
    rw [append_of_rotates full, run_bind]
    obtain ⟨store, crashed | returned⟩ := rotate_rotatesNothing early
    · rw [crashed]
      exact ⟨store, Or.inl rfl⟩
    · rw [returned]
      exact ⟨store, Or.inr ⟨writer.seq, rfl⟩⟩

end Runs

/-- The writer's handle is the file with chunk `index`. -/
def Attached (dir : SessionsDir) (index : Nat) (writer : ProvenanceWriter) : Prop :=
  ∃ file, dir.find (sessionName (index + 1)) = some file ∧ file.inode = writer.file

theorem Attached.appendTo {dir : SessionsDir} {index : Nat} {writer : ProvenanceWriter}
    (attached : Attached dir index writer) (inode : Nat) (data : Bytes) (now : Int) :
    Attached (dir.appendTo inode data now) index writer := by
  obtain ⟨file, found, handle⟩ := attached
  refine ⟨SessionsDir.appendFile inode data now file, ?_, ?_⟩
  · rw [SessionsDir.find_appendTo, found]
    rfl
  · rw [SessionsDir.appendFile_inode, handle]

section Append

variable {serde} {dir : SessionsDir} {chunks : List (List (ProvenanceEntry Value))}
  {writer : ProvenanceWriter} {faults : List Fault} {index : Nat}
  {chunk : List (ProvenanceEntry Value)} (now : Int) (kind : EventKind) (turnId : String)
  (content : Value) {entry : ProvenanceEntry Value}
  {result : Result (Except IoError Unit × ProvenanceWriter) SessionsDir}

/-- An append that goes through adds its entry to the chunk of the writer's file or, when that file is
full, to a new chunk. -/
theorem Holds.append_spec (holds : Holds serde dir chunks) (attached : Attached dir index writer)
    (inChunks : chunks[index]? = some chunk) (through : goesThrough writer.rotates faults = true)
    (isEntry : writer.nextEntry serde now kind turnId content = entry)
    (runs : (writer.append serde now kind turnId content).run faults dir = result) :
    ∃ written, result.outcome = .returned (.ok (), written) ∧
      written.seq = writer.seq + 1 ∧
      written.lastHash = entry.hash ∧
      ((writer.rotates = false ∧
          Holds serde result.store (chunks.set index (chunk ++ [entry])) ∧
          Attached result.store index written ∧
          written.fileBytes = writer.fileBytes + (entryLine serde entry).length) ∨
        (writer.rotates = true ∧
          Holds serde result.store (chunks ++ [[entry]]) ∧
          Attached result.store chunks.length written ∧
          written.fileBytes = (entryLine serde entry).length)) := by
  subst isEntry runs
  cases full : writer.rotates with
  | false =>
    rw [goesThrough, full] at through
    rw [append_of_stays full]
    obtain ⟨outcome, store⟩ := writeEntry_writes through
    rw [outcome, store]
    refine ⟨_, rfl, rfl, rfl, Or.inl ⟨rfl, ?_, ?_, rfl⟩⟩
    · obtain ⟨file, found, handle⟩ := attached
      rw [← handle]
      exact holds.appendTo inChunks found _ now
    · exact attached.appendTo _ _ now
  | true =>
    simp only [goesThrough, full, if_true, Bool.and_eq_true, beq_iff_eq] at through
    obtain ⟨⟨listed, opened⟩, through⟩ := through
    have created := holds.create now
    rw [append_of_rotates full, run_bind, rotate_passes listed opened,
      holds.length_sortedFiles, SessionsDir.openAppend_of_free holds.free]
    obtain ⟨outcome, store⟩ := writeEntry_writes through
    rw [outcome, store]
    refine ⟨_, rfl, rfl, rfl, Or.inr ⟨rfl, ?_, ?_, ?_⟩⟩
    · have newest : (chunks ++ [[]])[chunks.length]? = some [] := by simp
      have appended := created.appendTo newest (SessionsDir.find_create_same holds.free)
        (writer.nextEntry serde now kind turnId content) now
      simpa using appended
    · apply Attached.appendTo
      exact ⟨_, SessionsDir.find_create_same holds.free, rfl⟩
    · exact Nat.zero_add _

end Append

/-! ### The writer at the end of an intact log -/

/-- The writer's file is the newest one, and the writer knows its size and the hash the log ends
in. -/
structure AtEnd (dir : SessionsDir) (chunks : List (List (ProvenanceEntry Value)))
    (writer : ProvenanceWriter) : Prop where
  newest : ∃ front last, chunks = front ++ [last] ∧ Attached dir front.length writer ∧
    writer.fileBytes = (render serde last).length
  lastHash : writer.lastHash = (chainFormat serde).tip genesisHash chunks.flatten

section Intact

variable {serde} {dir : SessionsDir} {chunks : List (List (ProvenanceEntry Value))}
  {writer : ProvenanceWriter} {faults : List Fault} (now : Int) (kind : EventKind)
  (turnId : String) (content : Value) {entry : ProvenanceEntry Value}
  {result : Result (Except IoError Unit × ProvenanceWriter) SessionsDir}

theorem linked_nextEntry {entries : List (ProvenanceEntry Value)}
    (linked : (chainFormat serde).Linked 1 genesisHash entries)
    (number : writer.seq = entries.length)
    (lastHash : writer.lastHash = (chainFormat serde).tip genesisHash entries) :
    (chainFormat serde).Linked 1 genesisHash
      (entries ++ [writer.nextEntry serde now kind turnId content]) := by
  apply ChainFormat.linked_concat.mpr
  refine ⟨linked, ?_, lastHash, rfl⟩
  rw [← number]
  exact Nat.add_comm _ _

/-- An append that goes through extends the log by its entry, and leaves the writer at the end. -/
theorem Log.append_spec (log : Log serde dir chunks) (atEnd : AtEnd serde dir chunks writer)
    (number : writer.seq = chunks.flatten.length)
    (through : goesThrough writer.rotates faults = true)
    (isEntry : writer.nextEntry serde now kind turnId content = entry)
    (runs : (writer.append serde now kind turnId content).run faults dir = result) :
    ∃ written later, result.outcome = .returned (.ok (), written) ∧
      Log serde result.store later ∧
      AtEnd serde result.store later written ∧
      written.seq = writer.seq + 1 ∧
      later.flatten = chunks.flatten ++ [entry] ∧
      ((writer.rotates = false ∧ later.length = chunks.length) ∨
        (writer.rotates = true ∧ later = chunks ++ [[entry]])) := by
  obtain ⟨front, last, rfl, attached, size⟩ := atEnd.newest
  have inChunks : (front ++ [last])[front.length]? = some last := by simp
  have linked := linked_nextEntry now kind turnId content log.linked number atEnd.lastHash
  rw [isEntry] at linked
  obtain ⟨written, outcome, seq, hash, stayed | rotated⟩ :=
    log.toHolds.append_spec now kind turnId content attached inChunks through isEntry runs
  · obtain ⟨stays, holds, stillAttached, bytes⟩ := stayed
    have later : (front ++ [last]).set front.length (last ++ [entry]) = front ++ [last ++ [entry]] := by
      simp
    rw [later] at holds
    have flat : (front ++ [last ++ [entry]]).flatten = (front ++ [last]).flatten ++ [entry] := by
      simp
    refine ⟨written, _, outcome, ⟨holds, ?_, ?_⟩, ⟨?_, ?_⟩, seq, flat, Or.inl ⟨stays, by simp⟩⟩
    · rw [flat]
      exact linked
    · right
      rcases log.filled with only | filled
      · obtain ⟨rfl, rfl⟩ : front = [] ∧ last = [] := by cases front <;> simp_all
        simp
      · simpa using fun member => filled (mem_append_left _ member)
    · refine ⟨front, _, rfl, stillAttached, ?_⟩
      rw [bytes, size, render_append, render_singleton, length_append]
    · rw [flat, ChainFormat.tip_concat, hash]
      rfl
  · obtain ⟨full, holds, newAttached, bytes⟩ := rotated
    have flat : (front ++ [last] ++ [[entry]]).flatten = (front ++ [last]).flatten ++ [entry] := by
      simp
    refine ⟨written, _, outcome, ⟨holds, ?_, ?_⟩, ⟨?_, ?_⟩, seq, flat, Or.inr ⟨full, rfl⟩⟩
    · rw [flat]
      exact linked
    · -- A full file is not empty, so the log is past its first, empty file.
      right
      rcases log.filled with only | filled
      · obtain ⟨rfl, rfl⟩ : front = [] ∧ last = [] := by cases front <;> simp_all
        simp [ProvenanceWriter.rotates, size, maxFileBytes] at full
      · simpa using filled
    · refine ⟨_, _, rfl, newAttached, ?_⟩
      rw [bytes, render_singleton]
    · rw [flat, ChainFormat.tip_concat, hash]
      rfl

/-- The last entry of the newest file carries the number and the hash the log ends in. -/
theorem Log.newest_last (log : Log serde dir chunks) {front : List (List (ProvenanceEntry Value))}
    {last : List (ProvenanceEntry Value)} (split : chunks = front ++ [last]) :
    match last.getLast? with
    | some entry => entry.seq = chunks.flatten.length ∧
        entry.hash = (chainFormat serde).tip genesisHash chunks.flatten
    | none => chunks.flatten = [] := by
  subst split
  rcases eq_nil_or_concat last with rfl | ⟨init, entry, rfl⟩
  · rcases log.filled with only | filled
    · obtain rfl : front = [] := by simpa using only
      simp
    · simp at filled
  · have flat : (front ++ [init.concat entry]).flatten = front.flatten ++ init ++ [entry] := by
      simp
    have linked := log.linked
    rw [flat] at linked ⊢
    obtain ⟨-, number, -, -⟩ := ChainFormat.linked_concat.mp linked
    simp only [concat_eq_append, getLast?_concat, ChainFormat.tip_concat]
    constructor
    · rw [length_append, length_singleton, Nat.add_comm]
      exact number
    · rfl

def ScanFinds (serde : SerdeJson Value) (chunks : List (List (ProvenanceEntry Value)))
    (found : String × Nat × String × Nat) : Prop :=
  found.2.1 = chunks.flatten.length ∧
    found.2.2.1 = (chainFormat serde).tip genesisHash chunks.flatten ∧
    ((chunks = [] ∧ found.1 = sessionName 1 ∧ found.2.2.2 = 0) ∨
      ∃ front last, chunks = front ++ [last] ∧ found.1 = sessionName (front.length + 1) ∧
        found.2.2.2 = (render serde last).length)

/-- Whatever faults it meets, a scan changes nothing, and what it returns is the end of the log. -/
theorem Log.scan_safe (log : Log serde dir chunks) (few : chunks.length < 10000) :
    (ProvenanceWriter.scan serde).Safe (fun _ after => after = dir)
      (fun result after => after = dir ∧ ∀ found, result = .ok found → ScanFinds serde chunks found)
      dir := by
  simp only [ProvenanceWriter.scan, readDir, metadataLen, readFile, perform, bind_eq, call_bind, ret_bind, pure_eq]
  refine ⟨⟨rfl, ?_⟩, fun amount => ⟨rfl, rfl, by simp⟩, fun amount => rfl⟩
  simp only [sessionCalls, log.sortedFiles_eq few]
  rcases eq_nil_or_concat chunks with rfl | ⟨front, last, split⟩
  · refine ⟨rfl, ?_⟩
    rintro found ⟨⟩
    exact ⟨rfl, rfl, Or.inl ⟨rfl, by decide, rfl⟩⟩
  · rw [concat_eq_append] at split
    have newest : (firstNames chunks.length).getLast? = some (sessionName (front.length + 1)) := by
      rw [split, length_append, length_singleton, firstNames_succ, getLast?_concat]
    have contents : dir.read (sessionName (front.length + 1)) = some (render serde last) :=
      log.read front.length last (by simp [split])
    have ending := log.newest_last split
    rw [newest]
    refine ⟨⟨rfl, ?_⟩, fun amount => ⟨rfl, rfl, by simp⟩, fun amount => rfl⟩
    simp only [contents, Option.map_some, Option.elim_some]
    refine ⟨⟨rfl, ?_⟩, fun amount => ⟨rfl, rfl, by simp⟩, fun amount => rfl⟩
    simp only [contents, Option.elim_some, lastEntry_render, Option.or_none]
    cases atEnd : last.getLast? with
    | none =>
      rw [atEnd] at ending
      refine ⟨rfl, ?_⟩
      rintro found ⟨⟩
      refine ⟨?_, ?_, Or.inr ⟨front, last, split, rfl, rfl⟩⟩
      · rw [ending]
        rfl
      · rw [ending]
        rfl
    | some entry =>
      rw [atEnd] at ending
      refine ⟨rfl, ?_⟩
      rintro found ⟨⟩
      exact ⟨ending.1, ending.2, Or.inr ⟨front, last, split, rfl, rfl⟩⟩

/-- The log after it was opened: nothing has changed, or its first file was made. -/
def OpenLeaves (serde : SerdeJson Value) (chunks : List (List (ProvenanceEntry Value)))
    (after : SessionsDir) (later : List (List (ProvenanceEntry Value))) : Prop :=
  Log serde after later ∧ (later = chunks ∨ (chunks = [] ∧ later = [[]]))

/-- The rule for `open` with `create` and `append`: the file is there afterwards, or nothing has
changed. -/
theorem openAppend_safe {α : Type} {guard : SessionsDir → SessionsDir → Prop}
    {post : α → SessionsDir → Prop} {next : Except IoError Nat → Prog sessionCalls α}
    {name : String} {now : Int} {inode : Nat} {made : SessionsDir}
    (opens : dir.openAppend name now = (inode, made)) (made_ok : guard dir made)
    (same_ok : guard dir dir) (opened : (next (.ok inode)).Safe guard post made)
    (failed : (next (.error .device)).Safe guard post dir) :
    ((openAppend name now).bind next).Safe guard post dir := by
  refine ⟨?_, fun amount => ⟨same_ok, failed⟩, fun amount => ?_⟩
  · simp only [sessionCalls, opens]
    exact ⟨made_ok, opened⟩
  · simp only [opens]
    split_ifs
    · exact same_ok
    · exact made_ok

theorem Log.create_first (log : Log serde dir []) (now : Int) :
    Log serde (dir.create (sessionName 1) now log.toHolds.free) [[]] where
  toHolds := log.toHolds.create now
  linked := trivial
  filled := Or.inl rfl

theorem Log.open_safe (log : Log serde dir chunks) (few : chunks.length < 10000) :
    (ProvenanceWriter.open serde now).Safe
      (fun _ after => ∃ later, OpenLeaves serde chunks after later)
      (fun result after => ∃ later, OpenLeaves serde chunks after later ∧
        ∀ writer, result = .ok writer →
          AtEnd serde after later writer ∧ writer.seq = later.flatten.length) dir := by
  have unchanged : OpenLeaves serde chunks dir chunks := ⟨log, Or.inl rfl⟩
  have scanned : (ProvenanceWriter.scan serde).Safe
      (fun _ after => ∃ later, OpenLeaves serde chunks after later)
      (fun result after => after = dir ∧ ∀ found, result = .ok found → ScanFinds serde chunks found)
      dir := by
    refine (log.scan_safe few).mono ?_ fun _ _ post => post
    rintro before after rfl
    exact ⟨chunks, unchanged⟩
  refine scanned.bind ?_
  rintro result after ⟨rfl, finds⟩
  cases result with
  | error e => exact ⟨chunks, unchanged, by simp⟩
  | ok found =>
    obtain ⟨path, seq, hash, size⟩ := found
    obtain ⟨number, lastHash, place⟩ := finds _ rfl
    rcases place with ⟨rfl, rfl, rfl⟩ | ⟨front, last, split, rfl, rfl⟩
    · have free : after.find (sessionName 1) = none := log.toHolds.free
      have created : OpenLeaves serde [] (after.create (sessionName 1) now free) [[]] :=
        ⟨log.create_first now, Or.inr ⟨rfl, rfl⟩⟩
      apply openAppend_safe (SessionsDir.openAppend_of_free free now)
      · exact ⟨[[]], created⟩
      · exact ⟨[], unchanged⟩
      · refine ⟨[[]], created, ?_⟩
        rintro writer ⟨⟩
        exact ⟨⟨⟨[], [], rfl, ⟨_, SessionsDir.find_create_same free, rfl⟩, rfl⟩, lastHash⟩, number⟩
      · exact ⟨[], unchanged, by simp⟩
    · have bound : front.length < chunks.length := by simp [split]
      obtain ⟨file, found⟩ := log.exists_find bound
      apply openAppend_safe (SessionsDir.openAppend_of_find found now)
      · exact ⟨chunks, unchanged⟩
      · exact ⟨chunks, unchanged⟩
      · refine ⟨chunks, unchanged, ?_⟩
        rintro writer ⟨⟩
        exact ⟨⟨⟨front, last, split, ⟨file, found, rfl⟩, rfl⟩, lastHash⟩, number⟩
      · exact ⟨chunks, unchanged, by simp⟩

/-- Whatever faults it meets, opening an intact log leaves it intact, and a writer it returns stands at
the end of the log. -/
theorem Log.open_spec (log : Log serde dir chunks) (few : chunks.length < 10000)
    (faults : List Fault) :
    ∃ later, OpenLeaves serde chunks ((ProvenanceWriter.open serde now).run faults dir).store later ∧
      ∀ writer, ((ProvenanceWriter.open serde now).run faults dir).outcome = .returned (.ok writer) →
        AtEnd serde ((ProvenanceWriter.open serde now).run faults dir).store later writer ∧
          writer.seq = later.flatten.length := by
  have safe := log.open_safe now few
  cases outcome : ((ProvenanceWriter.open serde now).run faults dir).outcome with
  | crashed =>
    obtain ⟨later, leaves⟩ :=
      safe.keeps_run (fun _ _ allowed _ => allowed) ⟨chunks, log, Or.inl rfl⟩ faults
    exact ⟨later, leaves, by simp⟩
  | returned result =>
    obtain ⟨later, leaves, atEnd⟩ := safe.of_returned outcome
    refine ⟨later, leaves, ?_⟩
    intro writer returned
    exact atEnd writer (Outcome.returned.inj returned)

end Intact

section FaultFree

variable {serde} {dir : SessionsDir} {chunks : List (List (ProvenanceEntry Value))} {index : Nat}
  {chunk : List (ProvenanceEntry Value)}

theorem Holds.scan_newest (holds : Holds serde dir chunks)
    (newest : (sortedFiles dir.names).getLast? = some (sessionName (index + 1)))
    (inChunks : chunks[index]? = some chunk) :
    ∃ seq hash, (ProvenanceWriter.scan serde).run [] dir =
      { outcome := .returned (.ok (sessionName (index + 1), seq, hash, (render serde chunk).length))
        faults := []
        store := dir } := by
  have contents := holds.read index chunk inChunks
  simp only [ProvenanceWriter.scan, readDir, metadataLen, readFile, perform, bind_eq, call_bind, ret_bind, pure_eq]
  rw [run_call_pass rfl]
  simp only [sessionCalls, newest]
  rw [run_call_pass rfl]
  simp only [contents, Option.map_some, Option.elim_some]
  rw [run_call_pass rfl]
  simp only [contents, Option.elim_some, lastEntry_render, Option.or_none]
  cases chunk.getLast? with
  | none => exact ⟨0, genesisHash, rfl⟩
  | some entry => exact ⟨entry.seq, entry.hash, rfl⟩

theorem Holds.open_newest (holds : Holds serde dir chunks)
    (newest : (sortedFiles dir.names).getLast? = some (sessionName (index + 1)))
    (inChunks : chunks[index]? = some chunk) (now : Int) :
    ∃ writer, (ProvenanceWriter.open serde now).run [] dir =
        { outcome := .returned (.ok writer), faults := [], store := dir } ∧
      Attached dir index writer := by
  obtain ⟨seq, hash, scanned⟩ := holds.scan_newest newest inChunks
  obtain ⟨file, found⟩ := holds.exists_find (List.getElem?_eq_some_iff.mp inChunks).1
  refine ⟨{ file := file.inode, seq := seq, lastHash := hash
            fileBytes := (render serde chunk).length }, ?_, file, found, rfl⟩
  rw [ProvenanceWriter.open, bind_eq, run_bind, scanned]
  simp only [openAppend, perform, bind_eq, call_bind, ret_bind, pure_eq]
  rw [run_call_pass rfl]
  simp only [sessionCalls, SessionsDir.openAppend_of_find found]
  rfl

theorem Holds.open_first (holds : Holds serde dir []) (now : Int) :
    ∃ writer, ((ProvenanceWriter.open serde now).run [] dir).outcome = .returned (.ok writer) := by
  have none : (sortedFiles dir.names).getLast? = none := by
    rw [getLast?_eq_none_iff]
    exact length_eq_zero_iff.mp holds.length_sortedFiles
  simp only [ProvenanceWriter.open, ProvenanceWriter.scan, readDir, openAppend, perform,
    bind_eq, call_bind, ret_bind, pure_eq]
  rw [run_call_pass rfl]
  simp only [sessionCalls, none, ret_bind]
  exact ⟨_, rfl⟩

theorem Log.open_returns (log : Log serde dir chunks) (few : chunks.length < 10000) (now : Int) :
    ∃ writer, ((ProvenanceWriter.open serde now).run [] dir).outcome = .returned (.ok writer) := by
  rcases eq_nil_or_concat chunks with rfl | ⟨front, last, rfl⟩
  · exact log.toHolds.open_first now
  · rw [concat_eq_append] at *
    have newest : (sortedFiles dir.names).getLast? = some (sessionName (front.length + 1)) := by
      rw [log.toHolds.sortedFiles_eq few, length_append, length_singleton,
        firstNames_succ, getLast?_concat]
    have inChunks : (front ++ [last])[front.length]? = some last := by simp
    obtain ⟨writer, run, -⟩ := log.toHolds.open_newest newest inChunks now
    exact ⟨writer, by rw [run]⟩

end FaultFree

end NuraOS.Provenance
