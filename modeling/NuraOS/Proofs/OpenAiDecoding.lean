/-
Purpose: What the agent makes of a completion.
-/
import Mathlib.Data.List.Flatten
import NuraOS.Agent.Providers
import NuraOS.Proofs.Aggregation

namespace NuraOS.Agent.OpenAi

open Foundation
open Foundation.Iteration (Yields)
open Foundation.RustText (EndsSolid White trim stripLead trim_field trim_blank)
open Foundation.Serde (Reader Value)
open ChatCompletions List

def noted (known : ToolEntry) (entry : Entry) : ToolEntry :=
  { known with id := entry.id.getD known.id, name := entry.name.getD known.name }

def pieceOf (known : ToolEntry) (arguments : String) : CallDelta where
  id := known.id
  name := if known.arguments ++ arguments = arguments ∧ known.name ≠ "" then some known.name else none
  chunk := arguments

def Pending.take (pending : Pending) (entry : Entry) : Pending :=
  let known := noted (pending entry.index) entry
  Function.update pending entry.index { known with arguments := known.arguments ++ entry.arguments.getD "" }

def takeEntries (pending : Pending) : List Entry → Option CallDelta × Pending
  | [] => (none, pending)
  | entry :: entries =>
    match entry.arguments with
    | some arguments => (some (pieceOf (noted (pending entry.index) entry) arguments), pending.take entry)
    | none => takeEntries (pending.take entry) entries

def interpret (pending : Pending) : Part → Option StreamEvent × Pending
  | .delta delta =>
    if delta.content.getD "" ≠ "" then
      (some (.tokenDelta (delta.content.getD "")), pending)
    else
      let told := takeEntries pending delta.entries
      (told.1.map fun piece => .toolCallDelta piece.id piece.name piece.chunk, told.2)
  | .finish reason _ => (some (.done (stopReason reason)), pending)
  | .usage counts => (some (.usage ⟨counts.prompt.toUInt32, counts.completion.toUInt32⟩), pending)

def ChunkResult.ofOption : Option StreamEvent → ChunkResult
  | none => .continues
  | some event => .emit event

variable {entries : List Entry} {fromStr : Reader} {index : UInt64} {completion : Completion}

theorem readEntries_carried {values : List Value}
    (carried : List.Forall₂ Entry.Carried entries values) (pending : Pending) :
    readEntries pending values =
      (.ofOption ((takeEntries pending entries).1.map fun piece =>
        .toolCallDelta piece.id piece.name piece.chunk), (takeEntries pending entries).2) := by
  induction carried generalizing pending with
  | nil => rfl
  | @cons entry value entries values here _ ih =>
    obtain ⟨isIndex, isId, isName, isArguments⟩ := here
    have note : noteEntry (pending entry.index) value = noted (pending entry.index) entry := by
      rw [noteEntry, isId, isName, noted]
    rw [readEntries, takeEntries, isIndex, isArguments, Option.getD_some, note]
    cases given : entry.arguments with
    | some arguments => simp [Pending.take, given, pieceOf, ChunkResult.ofOption]
    | none =>
      have same : pending.take entry =
          Function.update pending entry.index (noted (pending entry.index) entry) := by
        simp [Pending.take, given]
      rw [← same]
      exact ih _

theorem readChunk_carried {part : Part} {value : Value} (carried : part.Carried value)
    (finished : ∀ reason delta, part = .finish reason delta → reason ≠ "") (pending : Pending) :
    readChunk value pending = (.ofOption (interpret pending part).1, (interpret pending part).2) := by
  unfold readChunk
  cases part with
  | delta delta =>
    obtain ⟨noError, noUsage, choice, first, noReason, content, entries⟩ := carried
    obtain ⟨others, choices⟩ := head?_eq_some_iff.mp first
    rw [noError, noUsage, choices]
    simp only [readChoice, noReason, content, Option.getD_none, interpret]
    rw [if_neg (by simp)]
    by_cases said : delta.content.getD "" = ""
    · rw [if_neg (by simpa using said), if_neg (by simpa using said), readEntries_carried entries]
    · rw [if_pos said, if_pos said]
      rfl
  | finish reason delta =>
    obtain ⟨noError, noUsage, choice, first, isReason, -⟩ := carried
    obtain ⟨others, choices⟩ := head?_eq_some_iff.mp first
    rw [noError, noUsage, choices]
    simp only [Option.getD_some, readChoice, isReason, interpret]
    rw [if_pos (finished reason delta rfl)]
    rfl
  | usage counts =>
    obtain ⟨noError, usage, isUsage, proper, prompt, completion⟩ := carried
    have kept : (some usage).filter (!·.isNull) = some usage :=
      Option.filter_some_pos (by rw [proper]; rfl)
    rw [noError, Option.mem_def.mp isUsage, kept]
    simp only [prompt, completion, Option.getD_some]
    rfl

section Reading

variable (fromStr : Reader) (pending : Pending) (taken : Nat)

theorem next_live (reads : List (Except String String)) :
    OpenAiStream.next fromStr none ⟨reads, taken, false, pending⟩ = scan fromStr none pending taken reads := rfl

variable {line ending : String}

theorem tells_line {result : Option StreamEvent} {after : Pending}
    (read : readLine fromStr line pending = (.ofOption result, after)) (reads : List (Except String String)) :
    Tells (OpenAiStream.next fromStr none) ⟨.ok line :: reads, taken, false, pending⟩ result
      ⟨reads, taken + 1, false, after⟩ := by
  have looks : ¬ CancelToken.isCancelled none (2 * taken) = true := Bool.false_ne_true
  unfold Tells
  rw [next_live, scan.eq_def, if_neg looks]
  simp only [read]
  cases result with
  | none => rfl
  | some event =>
    cases event with
    | done stopReason => exact ⟨rfl, rfl⟩
    | _ => rfl

theorem readLine_blank (white : White line) :
    readLine fromStr (line ++ "\n") pending = (.ofOption none, pending) := by
  rw [readLine, trim_blank white.newline]
  rfl

theorem readLine_done (white : White ending) :
    readLine fromStr ("data: " ++ "[DONE]" ++ ending ++ "\n") pending =
      (.ofOption (some (.done .endOfTurn)), pending) := by
  have trimmed : trim ("data: " ++ "[DONE]" ++ ending ++ "\n") = "data: " ++ "[DONE]" :=
    trim_field (by decide) (by decide) white
  rw [readLine, trimmed]
  exact if_pos (by decide)

theorem readLine_data {data : String} {value : Value} (white : White ending) (solid : EndsSolid data)
    (proper : data ≠ "[DONE]") (read : fromStr data = .ok value) :
    readLine fromStr ("data: " ++ data ++ ending ++ "\n") pending = readChunk value pending := by
  have trimmed : trim ("data: " ++ data ++ ending ++ "\n") = "data: " ++ data :=
    trim_field (by decide) solid white
  have different : "data: " ++ data ≠ "data: [DONE]" := by
    intro same
    apply proper
    have chars := congrArg String.toList same
    rw [String.toList_append] at chars
    exact String.toList_inj.mp (append_cancel_left chars)
  have given : data ≠ "" := by
    rintro rfl
    cases solid
  rw [readLine, trimmed, if_neg different]
  simp only [RustText.stripLead_append, if_neg given, read]

end Reading

def decode (pending : Pending) : List Part → List StreamEvent
  | [] => [.done .endOfTurn]
  | part :: parts => followedBy (interpret pending part).1 (decode (interpret pending part).2 parts)

theorem yields_sent {parts : List Part} {lines : List String} (sent : Sent fromStr parts lines)
    (finished : ∀ reason delta, Part.finish reason delta ∈ parts → reason ≠ "") (taken : Nat) (pending : Pending) :
    Yields (OpenAiStream.next fromStr none) ⟨lines.map fun line => .ok (line ++ "\n"), taken, false, pending⟩
      ((decode pending parts).map .ok) := by
  induction sent generalizing taken pending with
  | done white =>
    exact tells_line fromStr pending taken (readLine_done fromStr pending white) _
  | @blank parts lines line white _ ih =>
    have tells := tells_line fromStr pending taken (readLine_blank fromStr pending white)
      (lines.map fun line => .ok (line ++ "\n"))
    exact tells.yields (ih finished (taken + 1) pending)
  | @part parts lines part value data ending white solid proper read carried _ ih =>
    have here : ∀ reason delta, part = .finish reason delta → reason ≠ "" :=
      fun reason delta same => finished reason delta (same ▸ mem_cons_self)
    have rest : ∀ reason delta, Part.finish reason delta ∈ parts → reason ≠ "" :=
      fun reason delta member => finished reason delta (mem_cons_of_mem _ member)
    have tells := tells_line fromStr pending taken
      ((readLine_data fromStr pending white solid proper read).trans (readChunk_carried carried here pending))
      (lines.map fun line => .ok (line ++ "\n"))
    exact tells.yields (ih rest (taken + 1) _)

/-! ### What is looked at -/

def lookedEntries : List Entry → List Entry
  | [] => []
  | entry :: entries => if entry.arguments.isSome then [entry] else entry :: lookedEntries entries

def passedEntries : List Entry → List Entry
  | [] => []
  | entry :: entries => if entry.arguments.isSome then entries else passedEntries entries

def looked (delta : Delta) : List Entry :=
  if delta.content.getD "" ≠ "" then [] else lookedEntries delta.entries

def passed (delta : Delta) : List Entry :=
  if delta.content.getD "" ≠ "" then delta.entries else passedEntries delta.entries

def emit (pending : Pending) : List Entry → List CallDelta
  | [] => []
  | entry :: entries =>
    (entry.arguments.map (pieceOf (noted (pending entry.index) entry))).toList ++
      emit (pending.take entry) entries

theorem takeEntries_emit (pending : Pending) (entries rest : List Entry) :
    (takeEntries pending entries).1.toList ++ emit (takeEntries pending entries).2 rest =
      emit pending (lookedEntries entries ++ rest) := by
  induction entries generalizing pending with
  | nil => rfl
  | cons entry entries ih =>
    rw [takeEntries, lookedEntries]
    cases given : entry.arguments with
    | some arguments =>
      rw [Option.isSome_some, if_pos rfl, singleton_append, emit, given]
      rfl
    | none =>
      rw [Option.isSome_none, if_neg Bool.false_ne_true, cons_append, emit, given]
      exact ih _

/-- What the stream tells of the chunks before the one with the finish reason. -/
def deltaEvents (pending : Pending) : List Delta → List StreamEvent
  | [] => []
  | delta :: deltas =>
    (interpret pending (.delta delta)).1.toList ++ deltaEvents (interpret pending (.delta delta)).2 deltas

theorem interpret_delta_cases (pending : Pending) (delta : Delta) :
    (delta.content.getD "" ≠ "" ∧
        interpret pending (.delta delta) = (some (.tokenDelta (delta.content.getD "")), pending)) ∨
      (delta.content.getD "" = "" ∧
        interpret pending (.delta delta) =
          ((takeEntries pending delta.entries).1.map fun piece =>
            .toolCallDelta piece.id piece.name piece.chunk, (takeEntries pending delta.entries).2)) := by
  by_cases said : delta.content.getD "" = ""
  · exact .inr ⟨said, if_neg (by simpa using said)⟩
  · exact .inl ⟨said, if_pos said⟩

theorem told_interpret {pending : Pending} {delta : Delta} {event : StreamEvent}
    (told : event ∈ (interpret pending (.delta delta)).1) : Ordinary event ∧ event.usage? = none := by
  rcases interpret_delta_cases pending delta with ⟨-, is⟩ | ⟨-, is⟩
  · rw [is] at told
    cases told
    exact ⟨trivial, rfl⟩
  · rw [is] at told
    obtain ⟨piece, -, rfl⟩ := Option.map_eq_some_iff.mp told
    exact ⟨trivial, rfl⟩

theorem told_deltaEvents (pending : Pending) (deltas : List Delta) :
    ∀ event ∈ deltaEvents pending deltas, Ordinary event ∧ event.usage? = none := by
  induction deltas generalizing pending with
  | nil => exact fun _ member => nomatch member
  | cons delta deltas ih =>
    intro event member
    rcases mem_append.mp member with here | there
    · exact told_interpret (Option.mem_toList.mp here)
    · exact ih _ event there

theorem decode_parts (pending : Pending) (deltas : List Delta) (reason : String) (last : Delta)
    (rest : List Part) :
    decode pending (deltas.map .delta ++ .finish reason last :: rest) =
      deltaEvents pending deltas ++ [.done (stopReason reason)] := by
  induction deltas generalizing pending with
  | nil => rfl
  | cons delta deltas ih =>
    rw [map_cons, cons_append, decode, ih, deltaEvents]
    cases told : (interpret pending (.delta delta)).1 with
    | none => rfl
    | some event =>
      have ordinary : Ordinary event := (told_interpret told).1
      cases event with
      | done | error => exact ordinary.elim
      | _ => rfl

theorem deltaEvents_callDeltas (pending : Pending) (deltas : List Delta) :
    (deltaEvents pending deltas).filterMap StreamEvent.callDelta? = emit pending (deltas.flatMap looked) := by
  induction deltas generalizing pending with
  | nil => rfl
  | cons delta deltas ih =>
    rw [deltaEvents, filterMap_append, ih, flatMap_cons]
    rcases interpret_delta_cases pending delta with ⟨said, is⟩ | ⟨quiet, is⟩
    · rw [is, looked, if_pos said]
      rfl
    · rw [is, looked, if_neg (by simpa using quiet), ← takeEntries_emit]
      cases (takeEntries pending delta.entries).1 <;> rfl

theorem join_contents (delta : Delta) (deltas : List Delta) :
    String.join ((delta :: deltas).filterMap Delta.content) =
      delta.content.getD "" ++ String.join (deltas.filterMap Delta.content) := by
  cases given : delta.content <;> simp [given, String.join_cons]

theorem deltaEvents_text (pending : Pending) (deltas : List Delta) :
    String.join ((deltaEvents pending deltas).filterMap StreamEvent.text?) =
      String.join (deltas.filterMap Delta.content) := by
  induction deltas generalizing pending with
  | nil => rfl
  | cons delta deltas ih =>
    rw [deltaEvents, filterMap_append, String.join_append, ih, join_contents]
    congr 1
    rcases interpret_delta_cases pending delta with ⟨-, is⟩ | ⟨quiet, is⟩
    · rw [is]
      simp [StreamEvent.text?, String.join_cons]
    · rw [is, quiet]
      cases (takeEntries pending delta.entries).1 <;> rfl

/-! ### Pieces of calls -/

def identity (entries : List Entry) (index : UInt64) : String × String :=
  match entries.find? fun entry => entry.index = index ∧ entry.id.isSome with
  | some entry => (entry.id.getD "", entry.name.getD "")
  | none => ("", "")

abbrev Tidy (entries : List Entry) : Prop :=
  entries.Pairwise fun earlier later => later.index = earlier.index → later.id = none ∧ later.name = none

/-- With what is known before, the first entry of each index tells who it is about. -/
def Fits (who : UInt64 → String × String) (pending : Pending) (entries : List Entry) : Prop :=
  ∀ index entry, entries.find? (·.index = index) = some entry →
    entry.id.getD (pending index).id = (who index).1 ∧ entry.name.getD (pending index).name = (who index).2

section Emission

variable {who : UInt64 → String × String} {pending : Pending} {entry : Entry} {entries : List Entry}

theorem Fits.head (fits : Fits who pending (entry :: entries)) :
    (noted (pending entry.index) entry).id = (who entry.index).1 ∧
      (noted (pending entry.index) entry).name = (who entry.index).2 :=
  fits entry.index entry (find?_cons_of_pos (by simp))

variable {index : UInt64}

theorem Pending.take_other (other : index ≠ entry.index) :
    pending.take entry index = pending index :=
  Function.update_of_ne other _ _

theorem Pending.take_self : pending.take entry entry.index =
    { noted (pending entry.index) entry with
      arguments := (pending entry.index).arguments ++ entry.arguments.getD "" } := by
  rw [Pending.take, Function.update_self]
  rfl

theorem Fits.tail (tidy : Tidy (entry :: entries)) (fits : Fits who pending (entry :: entries)) :
    Fits who (pending.take entry) entries := by
  intro index next found
  by_cases same : index = entry.index
  · subst same
    have isIndex : next.index = entry.index := by simpa using find?_some found
    obtain ⟨noId, noName⟩ :=
      (pairwise_cons.mp tidy).1 next (mem_of_find?_eq_some found) isIndex
    rw [noId, noName, Pending.take_self]
    exact fits.head
  · rw [Pending.take_other same]
    refine fits index next ?_
    rw [find?_cons_of_neg (by simpa using fun is => same is.symm)]
    exact found

/-- Each piece comes from an entry with arguments and is about the call of its index. -/
theorem exists_entry_of_mem_emit (tidy : Tidy entries) (fits : Fits who pending entries) {piece : CallDelta}
    (member : piece ∈ emit pending entries) :
    ∃ entry ∈ entries, entry.arguments = some piece.chunk ∧ piece.id = (who entry.index).1 ∧
      ∀ name ∈ piece.name, name = (who entry.index).2 := by
  induction entries generalizing pending with
  | nil => cases member
  | cons entry entries ih =>
    rcases mem_append.mp member with here | there
    · obtain ⟨arguments, given, rfl⟩ := Option.map_eq_some_iff.mp (Option.mem_toList.mp here)
      refine ⟨entry, mem_cons_self, given, fits.head.1, fun name named => ?_⟩
      have said := (Option.ite_none_right_eq_some.mp named).2
      rw [← Option.some.inj said]
      exact fits.head.2
    · obtain ⟨other, inEntries, facts⟩ :=
        ih (pairwise_cons.mp tidy).2 (fits.tail tidy) there
      exact ⟨other, mem_cons_of_mem _ inEntries, facts⟩

theorem chunks_emit (tidy : Tidy entries) (fits : Fits who pending entries) (id : String) :
    ((emit pending entries).filter (·.id = id)).map CallDelta.chunk =
      (entries.filter fun entry => (who entry.index).1 = id).filterMap Entry.arguments := by
  induction entries generalizing pending with
  | nil => rfl
  | cons entry entries ih =>
    have rest := ih (pairwise_cons.mp tidy).2 (fits.tail tidy)
    rw [emit, filter_append, map_append, rest, filter_cons]
    cases given : entry.arguments with
    | none =>
      split
      · rw [filterMap_cons_none given]
        rfl
      · rfl
    | some arguments =>
      have isId : (pieceOf (noted (pending entry.index) entry) arguments).id = (who entry.index).1 :=
        fits.head.1
      have isChunk : (pieceOf (noted (pending entry.index) entry) arguments).chunk = arguments := rfl
      by_cases asked : (who entry.index).1 = id
      · simp [isId, isChunk, asked, given]
      · simp [isId, asked]

theorem exists_named_piece (tidy : Tidy entries) (fits : Fits who pending entries)
    (untouched : (pending index).arguments = "") (named : (who index).2 ≠ "")
    (given : ∃ entry ∈ entries, entry.index = index ∧ entry.arguments.isSome = true) :
    ∃ piece ∈ emit pending entries, piece.id = (who index).1 ∧ piece.name = some (who index).2 := by
  induction entries generalizing pending with
  | nil =>
    obtain ⟨_, member, _⟩ := given
    cases member
  | cons entry entries ih =>
    have tidyRest := (pairwise_cons.mp tidy).2
    by_cases here : entry.index = index ∧ entry.arguments.isSome = true
    · obtain ⟨rfl, isSome⟩ := here
      obtain ⟨arguments, isArguments⟩ := Option.isSome_iff_exists.mp isSome
      refine ⟨pieceOf (noted (pending entry.index) entry) arguments, ?_, fits.head.1, ?_⟩
      · rw [emit, isArguments]
        exact mem_append_left _ mem_cons_self
      · have fresh : (noted (pending entry.index) entry).arguments ++ arguments = arguments := by
          rw [show (noted (pending entry.index) entry).arguments = "" from untouched, String.empty_append]
        have name := fits.head.2
        rw [pieceOf, if_pos ⟨fresh, name ▸ named⟩, name]
    · obtain ⟨other, member, isIndex, isSome⟩ := given
      have later : other ∈ entries :=
        (mem_cons.mp member).resolve_left fun same => here (same ▸ ⟨isIndex, isSome⟩)
      have still : (pending.take entry index).arguments = "" := by
        by_cases same : index = entry.index
        · subst same
          have none : entry.arguments = none := by simpa using here
          rw [Pending.take_self, none, untouched]
          rfl
        · rw [Pending.take_other same]
          exact untouched
      obtain ⟨piece, inRest, facts⟩ :=
        ih tidyRest (fits.tail tidy) still ⟨other, later, isIndex, isSome⟩
      exact ⟨piece, mem_append_right _ inRest, facts⟩

end Emission

theorem fits_identity (tidy : Tidy entries)
    (both : ∀ entry ∈ entries, entry.id.isSome = entry.name.isSome) :
    Fits (identity entries) .none entries := by
  intro index entry found
  induction entries with
  | nil => cases found
  | cons first entries ih =>
    obtain ⟨later, tidy⟩ := pairwise_cons.mp tidy
    obtain ⟨firstBoth, both⟩ := forall_mem_cons.mp both
    by_cases same : first.index = index
    · obtain rfl : first = entry := by simpa [find?_cons, same] using found
      cases isId : first.id with
      | some id => simp [identity, same, isId, Pending.none]
      | none =>
        -- no entry with this index opens a call
        have nobody : (first :: entries).find? (fun entry => entry.index = index ∧ entry.id.isSome) = none := by
          grind
        have noName : first.name = none := Option.isNone_iff_eq_none.mp (by simpa [isId] using firstBoth)
        rw [identity, nobody, noName]
        exact ⟨rfl, rfl⟩
    · rw [find?_cons_of_neg (by simpa using same)] at found
      have rest := ih tidy both found
      simpa [identity, find?_cons, same] using rest

theorem eq_of_opening (tidy : Tidy entries) {first second : Entry} (one : first ∈ entries)
    (two : second ∈ entries) (same : first.index = second.index) (opens : first.id.isSome = true)
    (alsoOpens : second.id.isSome = true) : first = second := by
  induction entries with
  | nil => cases one
  | cons entry entries ih =>
    obtain ⟨later, rest⟩ := pairwise_cons.mp tidy
    grind

theorem identity_of_mem (tidy : Tidy entries) {entry : Entry} (member : entry ∈ entries)
    (opens : entry.id.isSome = true) :
    identity entries entry.index = (entry.id.getD "", entry.name.getD "") := by
  unfold identity
  cases found : entries.find? fun other => other.index = entry.index ∧ other.id.isSome with
  | none => exact absurd (decide_eq_true ⟨rfl, opens⟩) (find?_eq_none.mp found entry member)
  | some other =>
    have is := find?_some found
    obtain ⟨same, alsoOpens⟩ := of_decide_eq_true is
    rw [eq_of_opening tidy member (mem_of_find?_eq_some found) same.symm opens alsoOpens]

theorem exists_opening (known : (identity entries index).1 ≠ "") :
    ∃ entry ∈ entries, entry.index = index ∧ entry.id = some (identity entries index).1 := by
  unfold identity at known ⊢
  cases found : entries.find? fun other => other.index = index ∧ other.id.isSome with
  | none =>
    rw [found] at known
    exact absurd rfl known
  | some entry =>
    have is := find?_some found
    obtain ⟨same, opens⟩ := of_decide_eq_true is
    obtain ⟨id, isId⟩ := Option.isSome_iff_exists.mp opens
    exact ⟨entry, mem_of_find?_eq_some found, same, by simp [isId]⟩

theorem argumentsOf_append (index : UInt64) (first second : List Entry) :
    argumentsOf index (first ++ second) = argumentsOf index first ++ argumentsOf index second := by
  rw [argumentsOf, filter_append, filterMap_append, String.join_append, argumentsOf, argumentsOf]

theorem toList_argumentsOf (index : UInt64) (entries : List Entry) :
    (argumentsOf index entries).toList =
      ((entries.filter (·.index = index)).filterMap Entry.arguments).flatMap String.toList := by
  rw [argumentsOf, String.toList_join]

theorem argumentsOf_eq_empty :
    argumentsOf index entries = "" ↔ ∀ entry ∈ entries, entry.index = index → entry.arguments.getD "" = "" := by
  rw [← String.toList_eq_nil_iff, toList_argumentsOf, flatMap_eq_nil_iff]
  simp only [mem_filterMap, mem_filter, decide_eq_true_iff, String.toList_eq_nil_iff]
  refine ⟨fun none entry member same => ?_, ?_⟩
  · cases given : entry.arguments with
    | none => rfl
    | some arguments => exact none arguments ⟨entry, ⟨member, same⟩, given⟩
  · rintro none arguments ⟨entry, ⟨member, same⟩, given⟩
    simpa [given] using none entry member same

theorem length_argumentsOf_perm {first second : List Entry} (perm : first.Perm second) :
    (argumentsOf index first).length = (argumentsOf index second).length := by
  rw [← String.length_toList, ← String.length_toList, toList_argumentsOf, toList_argumentsOf]
  exact (((perm.filter _).filterMap _).flatMap_right _).length_eq

theorem looked_append_passed (delta : Delta) : looked delta ++ passed delta = delta.entries := by
  have entries : ∀ entries : List Entry, lookedEntries entries ++ passedEntries entries = entries := by
    intro entries
    induction entries with
    | nil => rfl
    | cons entry entries ih =>
      rw [lookedEntries, passedEntries]
      split
      · rfl
      · rw [cons_append, ih]
  unfold looked passed
  split
  · rfl
  · exact entries delta.entries

def lookedAll (completion : Completion) : List Entry :=
  completion.deltas.flatMap looked

/-- The entries it passes over: also all of those that come with the finish reason. -/
def passedAll (completion : Completion) : List Entry :=
  completion.deltas.flatMap passed ++ completion.last.entries

theorem entries_eq (completion : Completion) :
    completion.entries =
      (completion.deltas.flatMap fun delta => looked delta ++ passed delta) ++ completion.last.entries := by
  simp only [looked_append_passed]
  simp [Completion.entries]

theorem perm_entries (completion : Completion) :
    (lookedAll completion ++ passedAll completion).Perm completion.entries := by
  rw [entries_eq, lookedAll, passedAll, ← append_assoc]
  exact (flatMap_append_perm _ _ _).append_right _

theorem lookedAll_sublist (completion : Completion) : (lookedAll completion).Sublist completion.entries := by
  rw [entries_eq, lookedAll]
  exact (Sublist.flatMap_right _ fun _ _ => sublist_append_left _ _).trans (sublist_append_left _ _)

theorem argumentsOf_entries_iff :
    argumentsOf index completion.entries = argumentsOf index (lookedAll completion) ↔
      argumentsOf index (passedAll completion) = "" := by
  have lengths := @length_argumentsOf_perm index _ _ (perm_entries completion)
  rw [argumentsOf_append, String.length_append] at lengths
  rw [← String.length_eq_zero_iff]
  refine ⟨fun whole => by rw [whole] at lengths; omega, fun nothing => ?_⟩
  -- What is looked at stands among the entries, and is as long.
  have among : (argumentsOf index (lookedAll completion)).toList.Sublist
      (argumentsOf index completion.entries).toList := by
    rw [toList_argumentsOf, toList_argumentsOf]
    exact (((lookedAll_sublist completion).filter _).filterMap _).flatMap _
  refine (String.toList_inj.mp (among.eq_of_length ?_)).symm
  rw [String.length_toList, String.length_toList]
  omega

/-! ### The calls -/

abbrev gathered (completion : Completion) : List PartialToolCall :=
  assemble [] (emit .none (lookedAll completion))

theorem id_toolCalls (wellFormed : Entry.WellFormed completion.entries) :
    completion.toolCalls.map AssembledToolCall.id = completion.entries.filterMap Entry.id := by
  rw [Completion.toolCalls, map_filterMap]
  apply filterMap_congr
  intro entry member
  have both := wellFormed.both entry member
  unfold Entry.call?
  cases isId : entry.id <;> cases isName : entry.name <;> simp [isId, isName] at both ⊢

/-- Nothing is lost of the calls of a completion: what is passed over carries nothing, and every call has an entry
with arguments that is looked at, an ID of its own and a name. -/
structure Kept (completion : Completion) : Prop where
  vacuous : ∀ entry ∈ passedAll completion, entry.id = none ∧ entry.arguments.getD "" = ""
  given : ∀ entry ∈ completion.entries, entry.id.isSome = true →
    ∃ other ∈ lookedAll completion, other.index = entry.index ∧ other.arguments.isSome = true
  named : ∀ entry ∈ completion.entries, entry.id ≠ some "" ∧ entry.name ≠ some ""
  distinct : (completion.entries.filterMap Entry.id).Nodup

section Calls

variable {completion : Completion} (wellFormed : Entry.WellFormed completion.entries)

include wellFormed

theorem tidy_lookedAll : Tidy (lookedAll completion) :=
  wellFormed.later.sublist (lookedAll_sublist completion)

theorem fits_lookedAll : Fits (identity (lookedAll completion)) .none (lookedAll completion) :=
  fits_identity (tidy_lookedAll wellFormed) fun entry member =>
    wellFormed.both entry ((lookedAll_sublist completion).subset member)

variable {id : String} {entry : Entry}

theorem exists_looked_of_id (proper : id ≠ "")
    (known : id ∈ (gathered completion).map PartialToolCall.id) :
    ∃ entry ∈ lookedAll completion, entry.id = some id ∧
      ∃ other ∈ lookedAll completion, other.index = entry.index ∧ other.arguments.isSome = true := by
  rw [id_mem_assemble] at known
  obtain ⟨piece, member, rfl⟩ := mem_map.mp (known.resolve_left not_mem_nil)
  obtain ⟨other, inLooked, isArguments, isId, -⟩ :=
    exists_entry_of_mem_emit (tidy_lookedAll wellFormed) (fits_lookedAll wellFormed) member
  obtain ⟨entry, inEntries, isIndex, opens⟩ := exists_opening (isId ▸ proper)
  refine ⟨entry, inEntries, opens.trans (congrArg some isId.symm), other, inLooked, isIndex.symm, ?_⟩
  rw [isArguments]
  rfl

theorem identity_eq_iff (distinct : (completion.entries.filterMap Entry.id).Nodup)
    (member : entry ∈ lookedAll completion) (isId : entry.id = some id) (proper : id ≠ "") (index : UInt64) :
    (identity (lookedAll completion) index).1 = id ↔ index = entry.index := by
  constructor
  · intro known
    obtain ⟨other, inLooked, isIndex, otherId⟩ := exists_opening (known ▸ proper)
    have subset := (lookedAll_sublist completion).subset
    rw [known] at otherId
    rw [← isIndex, eq_of_nodup_filterMap distinct (subset inLooked) (subset member) otherId isId]
  · rintro rfl
    rw [identity_of_mem (tidy_lookedAll wellFormed) member (by rw [isId]; rfl), isId]
    rfl

/-- The call of an entry that is looked at, with its name and the arguments looked at. -/
theorem lookup_arrived (distinct : (completion.entries.filterMap Entry.id).Nodup)
    {name : String} (member : entry ∈ lookedAll completion) (isId : entry.id = some id)
    (isName : entry.name = some name) (proper : id ≠ "") (named : name ≠ "")
    (given : ∃ other ∈ lookedAll completion, other.index = entry.index ∧ other.arguments.isSome = true) :
    lookup id (gathered completion) =
      some ⟨id, name, argumentsOf entry.index (lookedAll completion)⟩ := by
  have tidy := tidy_lookedAll wellFormed
  have fits := fits_lookedAll wellFormed
  have who : identity (lookedAll completion) entry.index = (id, name) := by
    rw [identity_of_mem tidy member (by rw [isId]; rfl), isId, isName]
    rfl
  have about := identity_eq_iff wellFormed distinct member isId proper
  have chunks := chunks_emit tidy fits id
  simp only [about] at chunks
  have carried : ∃ piece ∈ emit .none (lookedAll completion), piece.id = id ∧ piece.name = some name := by
    have found := exists_named_piece tidy fits rfl (by rw [who]; exact named) given
    rwa [who] at found
  obtain ⟨first, inPieces, firstId, firstName⟩ := carried
  have inFilter : first ∈ (emit .none (lookedAll completion)).filter (·.id = id) :=
    mem_filter.mpr ⟨inPieces, decide_eq_true firstId⟩
  rw [lookup_assemble, if_neg (ne_nil_of_mem inFilter)]
  refine congrArg some (PartialToolCall.ext_iff.mpr ⟨id_extendAll _ _, ?_, ?_⟩)
  · refine name_extendAll (fun piece among said isSaid => ?_) (.inr ⟨first, inFilter, firstName⟩)
    obtain ⟨inEmit, pieceId⟩ := mem_filter.mp among
    obtain ⟨other, -, -, isOther, only⟩ := exists_entry_of_mem_emit tidy fits inEmit
    have same : other.index = entry.index := (about other.index).mp (isOther.symm.trans (of_decide_eq_true pieceId))
    rw [only said isSaid, same, who]
  · rw [arguments_extendAll, chunks]
    exact String.empty_append

theorem call_mem_toolCalls (member : entry ∈ completion.entries) (isId : entry.id = some id) :
    ∃ name, entry.name = some name ∧
      ⟨id, name, argumentsOf entry.index completion.entries⟩ ∈ completion.toolCalls := by
  have both := wellFormed.both entry member
  rw [isId] at both
  obtain ⟨name, isName⟩ := Option.isSome_iff_exists.mp both.symm
  exact ⟨name, isName, mem_filterMap.mpr ⟨entry, member, by simp [Entry.call?, isId, isName]⟩⟩

section Arrived

variable (arrive : (assembleCalls (gathered completion)).Perm completion.toolCalls)

include arrive

theorem distinct_of_arrive : (completion.entries.filterMap Entry.id).Nodup := by
  rw [← id_toolCalls wellFormed]
  exact (arrive.map _).nodup_iff.mp ((nodup_assemble_nil _).sublist (id_assembleCalls_sublist _))

theorem looked_of_arrive {entry : Entry} {id : String} (member : entry ∈ completion.entries)
    (isId : entry.id = some id) :
    entry ∈ lookedAll completion ∧ (entry.id ≠ some "" ∧ entry.name ≠ some "") ∧
      (∃ other ∈ lookedAll completion, other.index = entry.index ∧ other.arguments.isSome = true) ∧
      argumentsOf entry.index completion.entries = argumentsOf entry.index (lookedAll completion) := by
  have distinct := distinct_of_arrive wellFormed arrive
  obtain ⟨name, isName, sent⟩ := call_mem_toolCalls wellFormed member isId
  obtain ⟨assembled, proper, named⟩ := mem_assembleCalls.mp (arrive.mem_iff.mpr sent)
  obtain ⟨other, inLooked, otherId, given⟩ :=
    exists_looked_of_id wellFormed proper (mem_map_of_mem assembled)
  have same : other = entry :=
    eq_of_nodup_filterMap distinct ((lookedAll_sublist completion).subset inLooked) member otherId isId
  subst same
  have found := lookup_arrived wellFormed distinct inLooked isId isName proper named given
  rw [mem_iff_lookup (nodup_assemble_nil _)] at assembled
  have arguments := congrArg PartialToolCall.arguments (Option.some.inj (assembled.symm.trans found))
  refine ⟨inLooked, ⟨?_, ?_⟩, given, arguments⟩
  · rw [isId]
    exact fun empty => proper (Option.some.inj empty)
  · rw [isName]
    exact fun empty => named (Option.some.inj empty)

theorem kept_of_arrive : Kept completion where
  distinct := distinct_of_arrive wellFormed arrive
  given := by
    intro entry member opens
    obtain ⟨id, isId⟩ := Option.isSome_iff_exists.mp opens
    exact (looked_of_arrive wellFormed arrive member isId).2.2.1
  named := by
    intro entry member
    cases isId : entry.id with
    | some id => exact isId ▸ (looked_of_arrive wellFormed arrive member isId).2.1
    | none =>
      have both := wellFormed.both entry member
      rw [isId] at both
      refine ⟨Option.some_ne_none _ ∘ Eq.symm, fun isName => ?_⟩
      rw [isName] at both
      cases both
  vacuous := by
    intro entry passed
    have member : entry ∈ completion.entries :=
      (perm_entries completion).subset (mem_append_right _ passed)
    constructor
    · -- An entry that opens a call was looked at, so it cannot stand among the others once more.
      cases isId : entry.id with
      | none => rfl
      | some id =>
        have looked := (looked_of_arrive wellFormed arrive member isId).1
        have distinct := ((perm_entries completion).filterMap Entry.id).nodup_iff.mpr
          (distinct_of_arrive wellFormed arrive)
        rw [filterMap_append] at distinct
        exact absurd rfl ((nodup_append.mp distinct).2.2 id (mem_filterMap.mpr ⟨entry, looked, isId⟩)
          id (mem_filterMap.mpr ⟨entry, passed, isId⟩))
    · -- All arguments of the call were looked at, so none are left.
      obtain ⟨first, inEntries, isIndex, opens⟩ := wellFormed.opened entry member
      obtain ⟨id, isId⟩ := Option.isSome_iff_exists.mp opens
      have whole := (looked_of_arrive wellFormed arrive inEntries isId).2.2.2
      exact argumentsOf_eq_empty.mp (argumentsOf_entries_iff.mp whole) entry passed isIndex.symm

end Arrived

theorem arrived_of_kept (kept : Kept completion)
    (member : entry ∈ completion.entries) (isId : entry.id = some id) :
    ∃ name, entry.name = some name ∧
      ⟨id, name, argumentsOf entry.index completion.entries⟩ ∈
        assembleCalls (gathered completion) := by
  obtain ⟨name, isName, -⟩ := call_mem_toolCalls wellFormed member isId
  have proper : id ≠ "" := fun empty => (kept.named entry member).1 (empty ▸ isId)
  have named : name ≠ "" := fun empty => (kept.named entry member).2 (empty ▸ isName)
  have looked : entry ∈ lookedAll completion := by
    rcases mem_append.mp ((perm_entries completion).symm.subset member) with looked | passed
    · exact looked
    · rw [(kept.vacuous entry passed).1] at isId
      cases isId
  have given := kept.given entry member (by rw [isId]; rfl)
  have found := lookup_arrived wellFormed kept.distinct looked isId isName proper named given
  have nothing : argumentsOf entry.index (passedAll completion) = "" :=
    argumentsOf_eq_empty.mpr fun other passed _ => (kept.vacuous other passed).2
  rw [← argumentsOf_entries_iff.mpr nothing] at found
  exact ⟨name, isName, mem_assembleCalls.mpr
    ⟨(mem_iff_lookup (nodup_assemble_nil _)).mpr found, proper, named⟩⟩

theorem arrive_of_kept (kept : Kept completion) :
    (assembleCalls (gathered completion)).Perm completion.toolCalls := by
  have distinctHere : ((assembleCalls (gathered completion)).map
      AssembledToolCall.id).Nodup := (nodup_assemble_nil _).sublist (id_assembleCalls_sublist _)
  have distinctThere : (completion.toolCalls.map AssembledToolCall.id).Nodup := by
    rw [id_toolCalls wellFormed]
    exact kept.distinct
  rw [perm_ext_iff_of_nodup (List.Nodup.of_map _ distinctHere) (List.Nodup.of_map _ distinctThere)]
  have sent : ∀ call ∈ completion.toolCalls,
      call ∈ assembleCalls (gathered completion) := by
    intro call member
    obtain ⟨entry, inEntries, isCall⟩ := mem_filterMap.mp member
    cases isId : entry.id with
    | none => simp [Entry.call?, isId] at isCall
    | some id =>
      obtain ⟨name, isName, arrived⟩ := arrived_of_kept wellFormed kept inEntries isId
      simp only [Entry.call?, isId, isName, Option.some.injEq] at isCall
      exact isCall ▸ arrived
  refine fun call => ⟨fun member => ?_, sent call⟩
  -- A call that arrives has the ID of one that was sent, and no other has it.
  obtain ⟨assembled, proper, -⟩ := mem_assembleCalls.mp member
  obtain ⟨entry, inLooked, isId, -⟩ :=
    exists_looked_of_id wellFormed proper (mem_map_of_mem assembled)
  obtain ⟨name, -, isSent⟩ :=
    call_mem_toolCalls wellFormed ((lookedAll_sublist completion).subset inLooked) isId
  rw [inj_on_of_nodup_map distinctHere member (sent _ isSent) rfl]
  exact isSent

end Calls

/-! ### The whole completion -/

def arrived (completion : Completion) : AggregatedOutput where
  text := String.join (completion.deltas.filterMap Delta.content)
  toolCalls := assembleCalls (assemble [] (emit .none (lookedAll completion)))
  usage := none
  stopReason := stopReason completion.finishReason
  cancelled := false
  timedOut := false

theorem aggregateSync_completion (completion : Completion) :
    aggregateSync (fun _ => false) ((decode .none completion.parts).map .ok) = .ok (arrived completion) := by
  have told := told_deltaEvents .none completion.deltas
  have silent : (deltaEvents .none completion.deltas).filterMap StreamEvent.usage? = [] :=
    filterMap_eq_nil_iff.mpr fun event member => (told event member).2
  rw [Completion.parts, decode_parts, aggregateSync_complete fun event member => (told event member).1,
    deltaEvents_text, deltaEvents_callDeltas, silent]
  rfl

/-- What the agent makes of a completion over a connection: the aggregated output tells what the completion said. -/
def Understood (fromStr : Reader) (transcript : Transcript fromStr) : Prop :=
  ∃ items output,
    Yields (OpenAiStream.next fromStr none) (.start transcript.input.reads) items ∧
      aggregateSync (fun _ => false) items = .ok output ∧ transcript.completion.Decoded output

theorem understood_iff (transcript : Transcript fromStr) :
    Understood fromStr transcript ↔ transcript.completion.Decoded (arrived transcript.completion) := by
  have finished : ∀ reason delta, Part.finish reason delta ∈ transcript.completion.parts → reason ≠ "" := by
    intro reason delta member
    obtain ⟨rfl, -⟩ : reason = _ ∧ _ := by simpa [Completion.parts] using member
    exact transcript.finished
  have yields : Yields (OpenAiStream.next fromStr none) (.start transcript.input.reads)
      ((decode .none transcript.completion.parts).map .ok) := by
    rw [Transcript.input, RustText.reads_of_lines transcript.single]
    exact yields_sent transcript.sent finished 0 .none
  have output := aggregateSync_completion transcript.completion
  constructor
  · rintro ⟨items, result, others, aggregated, decoded⟩
    rw [others.unique yields, output] at aggregated
    cases aggregated
    exact decoded
  · exact fun decoded => ⟨_, _, yields, output, decoded⟩

theorem text_arrived_iff (completion : Completion) :
    (arrived completion).text = completion.text ↔ completion.last.content.getD "" = "" := by
  have whole : completion.text = (arrived completion).text ++ completion.last.content.getD "" := by
    rw [Completion.text, filterMap_append, String.join_append, join_contents, arrived]
    simp
  rw [whole]
  constructor
  · intro same
    have chars := congrArg String.toList same
    rw [String.toList_append, self_eq_append_right] at chars
    exact String.toList_eq_nil_iff.mp chars
  · intro empty
    rw [empty, String.append_empty]

/-- A completion is understood when no usage is sent, the chunk with the finish reason carries no content, and nothing
is lost of its calls. -/
theorem openAi_decodes_iff (fromStr : Reader) (transcript : Transcript fromStr) :
    Understood fromStr transcript ↔
      transcript.completion.usage = none ∧ transcript.completion.last.content.getD "" = "" ∧
        Kept transcript.completion := by
  have calls : (arrived transcript.completion).toolCalls.Perm transcript.completion.toolCalls ↔
      Kept transcript.completion :=
    ⟨kept_of_arrive transcript.wellFormed, arrive_of_kept transcript.wellFormed⟩
  have reported : (arrived transcript.completion).usage.map
        (fun usage => (usage.promptTokens.toNat, usage.completionTokens.toNat)) =
      transcript.completion.usage.map (fun counts => (counts.prompt.toNat, counts.completion.toNat)) ↔
      transcript.completion.usage = none := by
    cases transcript.completion.usage <;> simp [arrived]
  have stops : (arrived transcript.completion).stopReason = denoted transcript.completion.finishReason := rfl
  rw [understood_iff, Completion.Decoded, text_arrived_iff, calls, reported]
  constructor
  · rintro ⟨text, kept, usage, -⟩
    exact ⟨usage, text, kept⟩
  · rintro ⟨usage, text, kept⟩
    exact ⟨text, kept, usage, stops⟩

instance decidableEntryCarried (entry : Entry) (value : Value) : Decidable (entry.Carried value) :=
  inferInstanceAs (Decidable (_ ∧ _))

instance decidableDeltaCarried (delta : Delta) (value : Value) : Decidable (delta.Carried value) :=
  inferInstanceAs (Decidable (_ ∧ _))

instance decidablePartCarried (value : Value) : ∀ part : Part, Decidable (part.Carried value)
  | .delta _ | .finish .. => inferInstanceAs (Decidable (_ = none ∧ _ = none ∧ ∃ choice ∈ firstChoice value, _ ∧ _))
  | .usage _ => inferInstanceAs (Decidable (_ = none ∧ ∃ usage ∈ value.get "usage", _ ∧ _ ∧ _))

def plainLines (said : List (Part × String)) : List String :=
  said.map (fun entry => "data: " ++ entry.2) ++ ["data: [DONE]"]

theorem sent_plain {said : List (Part × String)}
    (readable : ∀ entry ∈ said, EndsSolid entry.2 ∧ entry.2 ≠ "[DONE]" ∧
      (Serde.readPlain entry.2).isOk = true ∧ entry.1.Carried (Serde.plainValue entry.2)) :
    Sent Serde.readPlain (said.map Prod.fst) (plainLines said) := by
  have blank : White "" := fun _ member => nomatch member
  induction said with
  | nil => exact Sent.done blank
  | cons entry said ih =>
    obtain ⟨⟨solid, proper, isOk, carried⟩, others⟩ := forall_mem_cons.mp readable
    have lines := Sent.part blank solid proper (Serde.readPlain_of_isOk isOk) carried (ih others)
    rw [String.append_empty] at lines
    exact lines

def greetingCompletion : Completion where
  deltas := [⟨some "hi", []⟩]
  last := ⟨none, []⟩
  finishReason := "stop"
  usage := some ⟨5, 1⟩

def greetingParts : List (Part × String) :=
  [(.delta ⟨some "hi", []⟩, "\x7b\"choices\":[\x7b\"delta\":\x7b\"content\":\"hi\"\x7d\x7d]\x7d"),
    (.finish "stop" ⟨none, []⟩, "\x7b\"choices\":[\x7b\"delta\":\x7b\x7d,\"finish_reason\":\"stop\"\x7d]\x7d"),
    (.usage ⟨5, 1⟩,
      "\x7b\"choices\":[],\"usage\":\x7b\"prompt_tokens\":5,\"completion_tokens\":1\x7d\x7d")]

def greeting : Transcript Serde.readPlain where
  completion := greetingCompletion
  finished := by decide
  wellFormed := ⟨.nil, by decide, by decide⟩
  lines := plainLines greetingParts
  sent := @sent_plain greetingParts (by decide +kernel)
  single := by decide +kernel

/-- The stream ends with the finish reason, and the usage after it is not read. -/
theorem greeting_not_understood :
    (arrived greeting.completion).usage = none ∧ greeting.completion.usage = some ⟨5, 1⟩ ∧
      ¬ Understood Serde.readPlain greeting := by
  refine ⟨rfl, rfl, fun understood => ?_⟩
  have reported := ((understood_iff greeting).mp understood).2.2.1
  cases reported

end NuraOS.Agent.OpenAi
