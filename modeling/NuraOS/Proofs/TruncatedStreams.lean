/-
Purpose: How the streams of the providers end, and what a turn makes of a reply that ends too early.
-/
import NuraOS.Agent.Providers
import NuraOS.Agent.Turn
import NuraOS.Proofs.Aggregation

namespace NuraOS.Agent

open Foundation
open Foundation.Iteration (Conforms Continues conforms_iff continues_final continues_passing)
open Foundation.RustText (Input trim stripLead)
open Foundation.Serde (Reader Value)

theorem Item.final_done (stopReason : StopReason) : Item.Final (.ok (.done stopReason)) := trivial

theorem Item.final_error (error : NuraError) : Item.Final (.error error) := trivial

theorem Item.not_final {event : StreamEvent} (ordinary : ∀ stopReason, event ≠ .done stopReason) :
    ¬ Item.Final (.ok event) := by
  cases event with
  | done stopReason => exact absurd rfl (ordinary stopReason)
  | _ => exact id

variable (fromStr : Reader) (cancel : CancelToken)

section Anthropic

open Anthropic

variable {stream : AnthropicStream}

theorem anthropic_next_done (done : stream.done = true) :
    (stream.next fromStr cancel).1 = none := by
  rw [AnthropicStream.next, if_pos done]

theorem anthropic_ends {item : Item} (final : item.Final) (done : stream.done = true) :
    Continues Item.Final (AnthropicStream.next fromStr cancel) (some item, stream) :=
  (continues_final final).mpr (anthropic_next_done fromStr cancel done)

theorem anthropic_conforms_live {reads : List (Except String String)} {taken : Nat} {pending : Pending}
    (reading : Continues Item.Final (AnthropicStream.next fromStr cancel)
      (scan fromStr cancel pending "" "" taken reads)) :
    Conforms Item.Final (AnthropicStream.next fromStr cancel) ⟨reads, taken, false, pending⟩ := by
  rw [conforms_iff, AnthropicStream.next, if_neg Bool.false_ne_true]
  split
  · exact anthropic_ends fromStr cancel (Item.final_done _) rfl
  · exact reading

theorem anthropic_scan_continues (reads : List (Except String String)) :
    ∀ (pending : Pending) (eventType dataLine : String) (taken : Nat),
      Continues Item.Final (AnthropicStream.next fromStr cancel)
        (scan fromStr cancel pending eventType dataLine taken reads) := by
  induction reads with
  | nil =>
    intro pending eventType dataLine taken
    exact anthropic_ends fromStr cancel (Item.final_done _) rfl
  | cons read reads ih =>
    intro pending eventType dataLine taken
    cases read with
    | error failure => exact anthropic_ends fromStr cancel (Item.final_error _) rfl
    | ok line =>
      rw [scan]
      split
      · split
        · exact ih _ _ _ _
        · -- The event is dispatched: it says nothing, ends the stream, or gives an item of its own.
          split
          · split
            · exact anthropic_ends fromStr cancel (Item.final_done _) rfl
            · exact ih _ _ _ _
          · exact anthropic_ends fromStr cancel (Item.final_done _) rfl
          · rename_i event pending ordinary _
            refine (continues_passing (Item.not_final fun stopReason => ?_)).mpr
              (anthropic_conforms_live fromStr cancel (ih _ _ _ _))
            exact ordinary stopReason
          · exact anthropic_ends fromStr cancel (Item.final_error _) rfl
      · split <;> exact ih _ _ _ _

end Anthropic

section OpenAi

open OpenAi

theorem openAi_ends {item : Item} (final : item.Final) {stream : OpenAiStream} (done : stream.done = true) :
    Continues Item.Final (OpenAiStream.next fromStr cancel) (some item, stream) := by
  rw [continues_final final, OpenAiStream.next, if_pos done]

theorem openAi_scan_continues (reads : List (Except String String)) :
    ∀ (pending : Pending) (taken : Nat),
      Continues Item.Final (OpenAiStream.next fromStr cancel) (scan fromStr cancel pending taken reads) := by
  induction reads with
  | nil =>
    intro pending taken
    rw [scan]
    split <;> exact openAi_ends fromStr cancel (Item.final_done _) rfl
  | cons read reads ih =>
    intro pending taken
    rw [scan.eq_def]
    split
    · exact openAi_ends fromStr cancel (Item.final_done _) rfl
    · cases read with
      | error failure => exact openAi_ends fromStr cancel (Item.final_error _) rfl
      | ok line =>
        dsimp only
        split
        · exact ih _ _
        · exact openAi_ends fromStr cancel (Item.final_done _) rfl
        · rename_i event pending ordinary _
          have live : Conforms Item.Final (OpenAiStream.next fromStr cancel)
              ⟨reads, taken + 1, false, pending⟩ := by
            rw [conforms_iff, OpenAiStream.next, if_neg Bool.false_ne_true]
            exact ih _ _
          exact (continues_passing (Item.not_final ordinary)).mpr live
        · exact openAi_ends fromStr cancel (Item.final_error _) rfl

end OpenAi

/-! ### The local server -/

section LocalServer

open LocalServer

def received : List (Except String String) → List String
  | .ok line :: reads => line :: received reads
  | _ => []

/-- A data line that is no JSON, or whose JSON says `stop`. -/
def Faulty (line : String) : Prop :=
  ∃ json, stripLead "data: " (trim line) = some json ∧ trim json ≠ "" ∧
    ∀ value, fromStr json = .ok value → (value.get "stop").bind Value.asBool = some true

/-- No line that is looked at is faulty. The first of the lines is the one of this number. -/
def Sound (first : Nat) (lines : List String) : Prop :=
  ∀ place line, lines[place]? = some line → cancel.isCancelled (2 * (first + place) + 1) = false →
    ¬ Faulty fromStr line

theorem parseSseLine_cases (line : String) :
    (Faulty fromStr line ∧
        ((∃ error, parseSseLine fromStr (trim line) = some (.error error)) ∨
          ∃ usage, parseSseLine fromStr (trim line) = some (.ok (.usage usage)))) ∨
      (¬ Faulty fromStr line ∧
        (parseSseLine fromStr (trim line) = none ∨
          ∃ text, parseSseLine fromStr (trim line) = some (.ok (.tokenDelta text)))) := by
  unfold parseSseLine
  cases data : stripLead "data: " (trim line) with
  | none =>
    refine .inr ⟨?_, .inl rfl⟩
    rintro ⟨json, carries, -⟩
    rw [data] at carries
    cases carries
  | some json =>
    have carried : Faulty fromStr line ↔ trim json ≠ "" ∧
        ∀ value, fromStr json = .ok value → (value.get "stop").bind Value.asBool = some true := by
      simp [Faulty, data]
    rw [carried]
    by_cases blank : trim json = ""
    · exact .inr ⟨fun faulty => faulty.1 blank, .inl (if_pos blank)⟩
    · dsimp only
      rw [if_neg blank]
      cases read : fromStr json with
      | error failure => exact .inl ⟨⟨blank, fun _ given => nomatch given⟩, .inl ⟨_, rfl⟩⟩
      | ok value =>
        dsimp only
        by_cases stops : (value.get "stop").bind Value.asBool = some true
        · rw [stops]
          exact .inl ⟨⟨blank, fun _ given => Except.ok.inj given ▸ stops⟩, .inr ⟨_, rfl⟩⟩
        · have goesOn : ((value.get "stop").bind Value.asBool).getD false = false := by
            cases said : (value.get "stop").bind Value.asBool with
            | none => rfl
            | some stop =>
              cases stop with
              | true => exact absurd said stops
              | false => rfl
          rw [goesOn, if_neg Bool.false_ne_true]
          refine .inr ⟨fun faulty => stops (faulty.2 value rfl), ?_⟩
          split
          · exact .inl rfl
          · exact .inr ⟨_, rfl⟩

theorem sound_nil (first : Nat) : Sound fromStr cancel first [] :=
  fun _ _ found => nomatch found

variable {first : Nat} {lines : List String}

theorem sound_cons {line : String} (looked : cancel.isCancelled (2 * first + 1) = false) :
    Sound fromStr cancel first (line :: lines) ↔
      ¬ Faulty fromStr line ∧ Sound fromStr cancel (first + 1) lines := by
  constructor
  · intro sound
    refine ⟨sound 0 line rfl looked, fun place other found running => ?_⟩
    refine sound (place + 1) other found ?_
    rwa [Nat.add_right_comm, Nat.add_assoc first] at running
  · rintro ⟨here, rest⟩ place other found running
    cases place with
    | zero =>
      cases found
      exact here
    | succ place =>
      refine rest place other found ?_
      rwa [Nat.add_assoc, Nat.add_comm 1 place]

theorem sound_of_cancelled
    (cancelled : cancel.isCancelled (2 * first + 1) = true) : Sound fromStr cancel first lines := by
  intro place line _ running
  have later := CancelToken.isCancelled_mono (show 2 * first + 1 ≤ 2 * (first + place) + 1 by omega) cancelled
  rw [later] at running
  cases running

theorem local_ends {item : Item} (final : item.Final) {stream : LocalStream} (done : stream.done = true) :
    Continues Item.Final (LocalStream.next fromStr cancel) (some item, stream) := by
  rw [continues_final final, LocalStream.next, if_pos done]

theorem local_scan_ne_none (reads : List (Except String String)) (taken : Nat) :
    (scan fromStr cancel taken reads).1 ≠ none := by
  induction reads generalizing taken with
  | nil => exact Option.some_ne_none _
  | cons read reads ih =>
    cases read with
    | error failure => exact Option.some_ne_none _
    | ok line =>
      rw [scan]
      split
      · exact Option.some_ne_none _
      · split
        · exact ih _
        · exact Option.some_ne_none _
        · exact Option.some_ne_none _

theorem local_conforms_live {reads : List (Except String String)} {taken : Nat}
    (reading : Continues Item.Final (LocalStream.next fromStr cancel) (scan fromStr cancel taken reads) ↔
      Sound fromStr cancel taken (received reads)) :
    Conforms Item.Final (LocalStream.next fromStr cancel) ⟨reads, taken, false⟩ ↔
      Sound fromStr cancel taken (received reads) := by
  rw [conforms_iff, LocalStream.next, if_neg Bool.false_ne_true]
  split
  · rename_i cancelled
    exact iff_of_true (local_ends fromStr cancel (Item.final_done _) rfl)
      (sound_of_cancelled fromStr cancel (CancelToken.isCancelled_mono (Nat.le_succ _) cancelled))
  · exact reading

theorem local_scan_continues_iff (reads : List (Except String String)) :
    ∀ taken, Continues Item.Final (LocalStream.next fromStr cancel) (scan fromStr cancel taken reads) ↔
      Sound fromStr cancel taken (received reads) := by
  induction reads with
  | nil =>
    intro taken
    exact iff_of_true (local_ends fromStr cancel (Item.final_done _) rfl) (sound_nil fromStr cancel taken)
  | cons read reads ih =>
    intro taken
    cases read with
    | error failure =>
      exact iff_of_true (local_ends fromStr cancel (Item.final_error _) rfl)
        (sound_nil fromStr cancel taken)
    | ok line =>
      rw [scan, received]
      cases cancelled : cancel.isCancelled (2 * taken + 1) with
      | true =>
        exact iff_of_true (local_ends fromStr cancel (Item.final_done _) rfl)
          (sound_of_cancelled fromStr cancel cancelled)
      | false =>
        rw [if_neg Bool.false_ne_true, sound_cons fromStr cancel cancelled]
        rcases parseSseLine_cases fromStr line with
          ⟨faulty, ⟨error, parsed⟩ | ⟨usage, parsed⟩⟩ | ⟨sound, parsed | ⟨text, parsed⟩⟩
        · -- The error is handed out, but the stream is not done and has another item to give.
          refine iff_of_false ?_ fun both => both.1 faulty
          simp only [parsed]
          rw [continues_final (Item.final_error _), LocalStream.next, if_neg Bool.false_ne_true]
          split
          · exact Option.some_ne_none _
          · exact local_scan_ne_none fromStr cancel _ _
        · -- The usage is handed out and the stream is done.
          refine iff_of_false ?_ fun both => both.1 faulty
          simp only [parsed]
          rw [continues_passing id, conforms_iff]
          rintro ⟨item, given, -⟩
          cases given
        · simp only [parsed]
          rw [ih]
          exact (and_iff_right sound).symm
        · simp only [parsed]
          rw [continues_passing id, local_conforms_live fromStr cancel (ih _)]
          exact (and_iff_right sound).symm

end LocalServer

/-! ### All three -/

/-- On every input, and whenever the caller cancels, the streams of all three providers come to an end with their
one final item, unless the local stream looks at a line that is no JSON or says `stop`. -/
theorem streams_conform_iff (input : Input) :
    (Conforms Item.Final (Anthropic.AnthropicStream.next fromStr cancel) (.start input.reads) ∧
        Conforms Item.Final (OpenAi.OpenAiStream.next fromStr cancel) (.start input.reads) ∧
        Conforms Item.Final (LocalServer.LocalStream.next fromStr cancel) (.start input.reads)) ↔
      ∀ place line, (received input.reads)[place]? = some line →
        cancel.isCancelled (2 * place + 1) = false → ¬ Faulty fromStr line := by
  have sound : Sound fromStr cancel 0 (received input.reads) ↔
      ∀ place line, (received input.reads)[place]? = some line →
        cancel.isCancelled (2 * place + 1) = false → ¬ Faulty fromStr line := by
    simp only [Sound, Nat.zero_add]
  rw [← sound, ← local_conforms_live fromStr cancel (local_scan_continues_iff fromStr cancel input.reads 0)]
  refine ⟨fun all => all.2.2, fun last => ⟨?_, ?_, last⟩⟩
  · exact anthropic_conforms_live fromStr cancel (anthropic_scan_continues fromStr cancel _ _ _ _ _)
  · exact conforms_iff.mpr (openAi_scan_continues fromStr cancel _ _ _)

def completedReply : Input where
  bytes := utf8 "data: \x7b\"content\":\"hi\",\"stop\":false\x7d\n\ndata: \x7b\"content\":\"\",\"stop\":true\x7d\n\n"
  failure := none

/-- It ends with the usage, and no final item. -/
theorem completedReply_not_final :
    Iteration.Yields (LocalServer.LocalStream.next Serde.readPlain none) (.start completedReply.reads)
        [.ok (.tokenDelta "hi"), .ok (.usage ⟨0, 0⟩)] ∧
      ¬ Conforms Item.Final (LocalServer.LocalStream.next Serde.readPlain none)
        (.start completedReply.reads) := by
  have yields : Iteration.Yields (LocalServer.LocalStream.next Serde.readPlain none)
      (.start completedReply.reads) [.ok (.tokenDelta "hi"), .ok (.usage ⟨0, 0⟩)] := by
    decide +kernel
  refine ⟨yields, ?_⟩
  rintro ⟨items, others, once⟩
  rw [← yields.unique others] at once
  exact once.2

/-! ### Replies cut short

What the reads of a reply say is told by their lines alone: a text, which may be empty, or nothing that can be
taken. The streams are related to that, and then the turn. -/

open Foundation.Iteration (Yields)
open Foundation.Serde (readPlain)

/-- The events of a stream that a blank line completes, each with its name and data; none is a read that fails. -/
def Anthropic.dispatched (eventType dataLine : String) : List (Except String String) → List (Option (String × String))
  | [] => []
  | .error _ :: _ => [none]
  | .ok line :: reads =>
    if trim line = "" then
      if dataLine = "" then dispatched eventType dataLine reads
      else some (eventType, dataLine) :: dispatched "" "" reads
    else
      match stripLead "event: " (trim line), stripLead "data: " (trim line) with
      | some rest, _ => dispatched rest dataLine reads
      | none, some rest => dispatched eventType rest reads
      | none, none => dispatched eventType dataLine reads

section Saying

variable (fromStr : Reader)

def Anthropic.tells (event : String × String) : Option String :=
  match fromStr event.2 with
  | .error _ => some ""
  | .ok value =>
    if event.1 = "error" then none
    else if event.1 = "content_block_delta" ∧ ((value.index "delta").index "type").asStr = some "text_delta" then
      some (((value.index "delta").index "text").asStr.getD "")
    else some ""

def dataOf (line : String) : Option Value :=
  ((stripLead "data: " (trim line)).filter (· ≠ "")).bind fun json => (fromStr json).toOption

def OpenAi.endMarker (line : String) : Bool :=
  trim line = "data: [DONE]" ||
    ((dataOf fromStr line).bind ChatCompletions.firstChoice).any fun choice => !(choice.index "finish_reason").isNull

def OpenAi.chunkTells (value : Value) : Option String :=
  if (value.get "error").isSome then none
  else if ((value.get "usage").filter (!·.isNull)).isSome then some ""
  else
    some (((ChatCompletions.firstChoice value).map fun choice =>
      ((choice.index "delta").index "content").asStr.getD "").getD "")

def OpenAi.tells (line : String) : Option String :=
  (dataOf fromStr line).elim (some "") chunkTells

def LocalServer.endMarker (line : String) : Bool :=
  (dataOf fromStr line).any fun value => (value.get "stop").bind Value.asBool = some true

def LocalServer.tells (line : String) : Option String :=
  match (stripLead "data: " (trim line)).filter (trim · ≠ "") with
  | none => some ""
  | some json => (fromStr json).toOption.map fun value => ((value.get "content").bind Value.asStr).getD ""

inductive Protocol where
  | anthropic
  | openAi
  | localServer

def Protocol.Truncated (reads : List (Except String String)) : Protocol → Prop
  | .anthropic => ∀ event ∈ Anthropic.dispatched "" "" reads, event.map Prod.fst ≠ some "message_stop"
  | .openAi => ∀ line ∈ received reads, OpenAi.endMarker fromStr line = false
  | .localServer => ∀ line ∈ received reads, LocalServer.endMarker fromStr line = false

/-- What the reads say: texts, and none where a read fails or the line is no JSON or reports an error. -/
def Protocol.tells (reads : List (Except String String)) : Protocol → List (Option String)
  | .anthropic => (Anthropic.dispatched "" "" reads).map (·.bind (Anthropic.tells fromStr))
  | .openAi => reads.map (·.toOption.bind (OpenAi.tells fromStr))
  | .localServer => reads.map (·.toOption.bind (LocalServer.tells fromStr))

def Protocol.Gives (cancel : CancelToken) (reads : List (Except String String)) (items : List Item) : Protocol → Prop
  | .anthropic => Yields (Anthropic.AnthropicStream.next fromStr cancel) (.start reads) items
  | .openAi => Yields (OpenAi.OpenAiStream.next fromStr cancel) (.start reads) items
  | .localServer => Yields (LocalServer.LocalStream.next fromStr cancel) (.start reads) items

instance (reads : List (Except String String)) : ∀ protocol : Protocol, Decidable (protocol.Truncated fromStr reads)
  | .anthropic | .openAi | .localServer => inferInstanceAs (Decidable (∀ _ ∈ _, _))

instance (cancel : CancelToken) (reads : List (Except String String)) (items : List Item) :
    ∀ protocol : Protocol, Decidable (protocol.Gives fromStr cancel reads items)
  | .anthropic | .openAi | .localServer => inferInstanceAs (Decidable (Yields _ _ _))

end Saying

/-! ### The items of such a reply -/

/-- Items of a reply without its end marker that tells this: its texts in order, and then an error or the end of the
input, unless the caller cancels. -/
inductive Cut : List (Option String) → List Item → Prop where
  | ended : Cut [] [.ok (.done .endOfTurn)]
  | cancelled {said : List (Option String)} : Cut said [.ok (.done .cancel)]
  | refused {said : List (Option String)} {error : NuraError} {items : List Item} :
      Cut (none :: said) (.error error :: items)
  | silent {said : List (Option String)} {items : List Item} (rest : Cut said items) : Cut (some "" :: said) items
  | spoken {said : List (Option String)} {event : StreamEvent} {items : List Item} (ordinary : Ordinary event)
      (rest : Cut said items) : Cut (some (event.text?.getD "") :: said) (.ok event :: items)

section Streams

variable {State : Type} {next : State → Option Item × State} {state : State} {items : List Item}
  {said : List (Option String)}

def CutFrom (next : State → Option Item × State) (said : List (Option String)) (answer : Option Item × State) : Prop :=
  ∃ item, answer.1 = some item ∧ ∀ rest, Yields next answer.2 rest → Cut said (item :: rest)

theorem CutFrom.cut (cut : CutFrom next said (next state)) (yields : Yields next state items) : Cut said items := by
  obtain ⟨item, given, rest⟩ := cut
  cases items with
  | nil => exact nomatch given.symm.trans yields
  | cons first others =>
    obtain rfl := Option.some.inj (given.symm.trans yields.1)
    exact rest others yields.2

/-- The last item of a stream that is done. -/
theorem cutFrom_last {item : Item} (cut : Cut said [item]) (drained : (next state).1 = none) :
    CutFrom next said (some item, state) := by
  refine ⟨item, rfl, fun rest yields => ?_⟩
  cases rest with
  | nil => exact cut
  | cons other rest => exact nomatch drained.symm.trans yields.1

theorem cutFrom_error {error : NuraError} : CutFrom next (none :: said) (some (.error error), state) :=
  ⟨_, rfl, fun _ _ => .refused⟩

theorem CutFrom.silent {answer : Option Item × State} (cut : CutFrom next said answer) :
    CutFrom next (some "" :: said) answer := by
  obtain ⟨item, given, rest⟩ := cut
  exact ⟨item, given, fun others yields => (rest others yields).silent⟩

theorem cutFrom_event {event : StreamEvent} (ordinary : Ordinary event) (rest : CutFrom next said (next state)) :
    CutFrom next (some (event.text?.getD "") :: said) (some (.ok event), state) :=
  ⟨_, rfl, fun _ yields => .spoken ordinary (rest.cut yields)⟩

end Streams

section Anthropic

open Anthropic

def Anthropic.Speaks (told : Option String) : ParseResult → Prop
  | .error _ => told = none
  | .continues => told = some ""
  | .emit event => Ordinary event ∧ told = some (event.text?.getD "")

theorem speaks_parseEvent {eventType : String} (unmarked : eventType ≠ "message_stop") (data : String)
    (pending : Pending) :
    Speaks (tells fromStr (eventType, data)) (parseEvent fromStr eventType data pending).1 := by
  unfold parseEvent
  cases read : fromStr data with
  | error failure => simp [Speaks, tells, read]
  | ok value =>
    dsimp only
    split
    · split <;> simp [Speaks, tells, read]
    · cases kind : ((value.index "delta").index "type").asStr with
      | none => simp [Speaks, tells, read, kind]
      | some kind =>
        rw [Option.getD_some]
        split
        · split
          · simp [Speaks, tells, *]
          · simp [Speaks, tells, Ordinary, StreamEvent.text?, *]
        · simp [Speaks, tells, Ordinary, StreamEvent.text?, *]
        · simp_all [Speaks, tells]
    · simp [Speaks, tells, read]
    · simp [Speaks, tells, read, Ordinary, StreamEvent.text?]
    · split <;> simp [Speaks, tells, read, Ordinary, StreamEvent.text?]
    · exact absurd rfl unmarked
    · simp [Speaks, tells, read]
    · simp_all [Speaks, tells]

theorem anthropic_cutFrom (reads : List (Except String String)) :
    ∀ (pending : Pending) (eventType dataLine : String) (taken : Nat),
      (∀ event ∈ dispatched eventType dataLine reads, event.map Prod.fst ≠ some "message_stop") →
        CutFrom (AnthropicStream.next fromStr cancel)
          ((dispatched eventType dataLine reads).map (·.bind (tells fromStr)))
          (scan fromStr cancel pending eventType dataLine taken reads) := by
  induction reads with
  | nil => exact fun _ _ _ _ _ => cutFrom_last .ended (anthropic_next_done _ _ rfl)
  | cons read reads ih =>
    intro pending eventType dataLine taken unmarked
    cases read with
    | error failure => exact cutFrom_error
    | ok line =>
      rw [scan]
      rw [dispatched] at unmarked ⊢
      split
      · rename_i blank
        rw [if_pos blank] at unmarked
        split
        · rename_i noData
          rw [if_pos noData] at unmarked
          exact ih _ _ _ _ unmarked
        · rename_i someData
          rw [if_neg someData] at unmarked
          obtain ⟨here, later⟩ := List.forall_mem_cons.mp unmarked
          rw [List.map_cons, Option.bind_some]
          have speaks := speaks_parseEvent fromStr (fun named => here (congrArg some named)) dataLine pending
          split <;> rename_i parsed <;> rw [parsed] at speaks
          · rw [speaks]
            split
            · exact cutFrom_last .cancelled (anthropic_next_done _ _ rfl)
            · exact (ih _ _ _ _ later).silent
          · exact speaks.1.elim
          · rw [speaks.2]
            refine cutFrom_event speaks.1 ?_
            rw [AnthropicStream.next, if_neg Bool.false_ne_true]
            split
            · exact cutFrom_last .cancelled (anthropic_next_done _ _ rfl)
            · exact ih _ _ _ _ later
          · rw [speaks]
            exact cutFrom_error
      · rename_i filled
        rw [if_neg filled] at unmarked
        cases named : stripLead "event: " (trim line) with
        | some rest =>
          simp only [named] at unmarked ⊢
          exact ih _ _ _ _ unmarked
        | none =>
          cases carries : stripLead "data: " (trim line) <;> simp only [named, carries] at unmarked ⊢ <;>
            exact ih _ _ _ _ unmarked

end Anthropic

section OpenAi

open OpenAi

def OpenAi.Speaks (told : Option String) : ChunkResult → Prop
  | .error _ => told = none
  | .continues => told = some ""
  | .emit event => Ordinary event ∧ told = some (event.text?.getD "")

theorem speaks_readEntries (pieces : List Value) (pending : Pending) :
    OpenAi.Speaks (some "") (readEntries pending pieces).1 := by
  induction pieces generalizing pending with
  | nil => rfl
  | cons piece pieces ih =>
    rw [readEntries]
    split
    · exact ⟨trivial, rfl⟩
    · exact ih _

theorem speaks_readChoice {choice : Value} (unmarked : (choice.index "finish_reason").isNull = true)
    (pending : Pending) :
    OpenAi.Speaks (some (((choice.index "delta").index "content").asStr.getD "")) (readChoice choice pending).1 := by
  have unfinished : (choice.index "finish_reason").asStr.getD "" = "" := by
    cases reason : choice.index "finish_reason" <;> rw [reason] at unmarked <;> first | rfl | cases unmarked
  rw [readChoice, unfinished, if_neg (fun other => other rfl)]
  dsimp only
  split
  · exact ⟨trivial, rfl⟩
  · rename_i silent
    rw [not_not.mp silent]
    exact speaks_readEntries _ _

theorem speaks_readChunk {value : Value}
    (unmarked : ∀ choice, ChatCompletions.firstChoice value = some choice →
      (choice.index "finish_reason").isNull = true) (pending : Pending) :
    OpenAi.Speaks (chunkTells value) (readChunk value pending).1 := by
  unfold readChunk chunkTells
  cases value.get "error" with
  | some error => rfl
  | none =>
    dsimp only
    rw [if_neg (by simp)]
    cases (value.get "usage").filter (!·.isNull) with
    | some usage => exact ⟨trivial, rfl⟩
    | none =>
      rw [if_neg (by simp)]
      unfold ChatCompletions.firstChoice at unmarked ⊢
      cases choices : (value.index "choices").asArray.getD [] with
      | nil => rfl
      | cons choice others =>
        rw [choices] at unmarked
        exact speaks_readChoice (unmarked choice rfl) pending

theorem speaks_readLine {line : String} (unmarked : endMarker fromStr line = false) (pending : Pending) :
    OpenAi.Speaks (tells fromStr line) (readLine fromStr line pending).1 := by
  obtain ⟨goesOn, unfinished⟩ := Bool.or_eq_false_iff.mp unmarked
  rw [readLine, if_neg (of_decide_eq_false goesOn)]
  unfold tells
  cases carried : stripLead "data: " (trim line) with
  | none => simp [dataOf, carried, Speaks]
  | some json =>
    dsimp only
    by_cases blank : json = ""
    · simp [dataOf, carried, blank, Option.filter_some, Speaks]
    · rw [if_neg blank]
      cases read : fromStr json with
      | error failure => simp [dataOf, carried, blank, Option.filter_some, read, Except.toOption, Speaks]
      | ok value =>
        have data : dataOf fromStr line = some value := by
          simp [dataOf, carried, blank, Option.filter_some, read, Except.toOption]
        rw [data] at unfinished ⊢
        refine speaks_readChunk (fun choice first => ?_) pending
        rw [Option.bind_some, first, Option.any_some, Bool.not_eq_false'] at unfinished
        exact unfinished

theorem openAi_cutFrom (reads : List (Except String String)) :
    ∀ (pending : Pending) (taken : Nat), (∀ line ∈ received reads, endMarker fromStr line = false) →
      CutFrom (OpenAiStream.next fromStr cancel) (reads.map (·.toOption.bind (tells fromStr)))
        (scan fromStr cancel pending taken reads) := by
  have drained : ∀ reads taken pending, (OpenAiStream.next fromStr cancel ⟨reads, taken, true, pending⟩).1 = none :=
    fun _ _ _ => rfl
  induction reads with
  | nil =>
    intro pending taken _
    rw [scan]
    split
    · exact cutFrom_last .cancelled (drained _ _ _)
    · exact cutFrom_last .ended (drained _ _ _)
  | cons read reads ih =>
    intro pending taken unmarked
    rw [scan.eq_def]
    split
    · exact cutFrom_last .cancelled (drained _ _ _)
    · cases read with
      | error failure => exact cutFrom_error
      | ok line =>
        obtain ⟨here, later⟩ := List.forall_mem_cons.mp unmarked
        have speaks := speaks_readLine fromStr here pending
        rw [List.map_cons, Except.toOption, Option.bind_some]
        dsimp only
        split <;> rename_i parsed <;> rw [parsed] at speaks
        · rw [speaks]
          exact (ih _ _ later).silent
        · exact speaks.1.elim
        · rw [speaks.2]
          exact cutFrom_event speaks.1 (ih _ _ later)
        · rw [speaks]
          exact cutFrom_error

end OpenAi

section LocalServer

open LocalServer

inductive LocalServer.Speaks : Option String → Option Item → Prop where
  | refused (error : NuraError) : Speaks none (some (.error error))
  | silent : Speaks (some "") none
  | spoken (text : String) : Speaks (some text) (some (.ok (.tokenDelta text)))

theorem speaks_parseSseLine {line : String} (unmarked : endMarker fromStr line = false) :
    LocalServer.Speaks (tells fromStr line) (parseSseLine fromStr (trim line)) := by
  unfold parseSseLine tells
  cases carried : stripLead "data: " (trim line) with
  | none => exact .silent
  | some json =>
    dsimp only
    by_cases blank : trim json = ""
    · rw [if_pos blank, Option.filter_some, if_neg (by simp [blank])]
      exact .silent
    · rw [if_neg blank, Option.filter_some, if_pos (by simp [blank])]
      dsimp only
      cases read : fromStr json with
      | error failure => exact .refused _
      | ok value =>
        have filled : json ≠ "" := by
          rintro rfl
          exact blank rfl
        have goesOn : ((value.get "stop").bind Value.asBool).getD false = false := by
          cases stop : (value.get "stop").bind Value.asBool <;>
            simp_all [endMarker, dataOf, Option.filter_some, Except.toOption]
        dsimp only [Except.toOption]
        rw [goesOn, if_neg Bool.false_ne_true, Option.map_some]
        by_cases silent : ((value.get "content").bind Value.asStr).getD "" = ""
        · rw [if_pos silent, silent]
          exact .silent
        · rw [if_neg silent]
          exact .spoken _

theorem local_cutFrom (reads : List (Except String String)) :
    ∀ taken : Nat, (∀ line ∈ received reads, endMarker fromStr line = false) →
      CutFrom (LocalStream.next fromStr cancel) (reads.map (·.toOption.bind (tells fromStr)))
        (scan fromStr cancel taken reads) := by
  have drained : ∀ reads taken, (LocalStream.next fromStr cancel ⟨reads, taken, true⟩).1 = none := fun _ _ => rfl
  induction reads with
  | nil => exact fun _ _ => cutFrom_last .ended (drained _ _)
  | cons read reads ih =>
    intro taken unmarked
    cases read with
    | error failure => exact cutFrom_error
    | ok line =>
      obtain ⟨here, later⟩ := List.forall_mem_cons.mp unmarked
      have speaks := speaks_parseSseLine fromStr here
      rw [scan, List.map_cons, Except.toOption, Option.bind_some]
      split
      · exact cutFrom_last .cancelled (drained _ _)
      · generalize parseSseLine fromStr (trim line) = parsed at speaks ⊢
        generalize tells fromStr line = told at speaks ⊢
        cases speaks with
        | refused error => exact cutFrom_error
        | silent => exact (ih _ later).silent
        | spoken text =>
          have ordinary : Ordinary (.tokenDelta text) := trivial
          refine cutFrom_event ordinary ?_
          rw [LocalStream.next, if_neg Bool.false_ne_true]
          split
          · exact cutFrom_last .cancelled (drained _ _)
          · exact ih _ later

end LocalServer

theorem Protocol.cut {protocol : Protocol} {reads : List (Except String String)} {items : List Item}
    (truncated : protocol.Truncated fromStr reads) (gives : protocol.Gives fromStr cancel reads items) :
    Cut (protocol.tells fromStr reads) items := by
  cases protocol with
  | anthropic =>
    have yields : Yields (Anthropic.AnthropicStream.next fromStr cancel) (.start reads) items := gives
    refine CutFrom.cut ?_ yields
    rw [Anthropic.AnthropicStream.next, if_neg (by exact Bool.false_ne_true)]
    split
    · exact cutFrom_last .cancelled (anthropic_next_done _ _ rfl)
    · exact anthropic_cutFrom fromStr cancel reads _ _ _ _ truncated
  | openAi =>
    have yields : Yields (OpenAi.OpenAiStream.next fromStr cancel) (.start reads) items := gives
    exact CutFrom.cut (openAi_cutFrom fromStr cancel reads _ _ truncated) yields
  | localServer =>
    have yields : Yields (LocalServer.LocalStream.next fromStr cancel) (.start reads) items := gives
    refine CutFrom.cut ?_ yields
    rw [LocalServer.LocalStream.next, if_neg (by exact Bool.false_ne_true)]
    split
    · exact cutFrom_last .cancelled rfl
    · exact local_cutFrom fromStr cancel reads _ truncated

/-! ### The turn -/

def Finished (messages : List Message) (result : TurnResult) : Prop :=
  ∃ outcome, result = (.ok outcome, messages ++ [⟨.assistant, [.text outcome.finalText]⟩]) ∧
    outcome.stopReason = .endOfTurn

variable {items : List Item} {said : List (Option String)}

/-- What the loop comes to with so many items of a reply that says this: it is cancelled, or it fails because a read
told nothing, or it has all the texts and the end of the turn. -/
inductive Collected (cancelled : Nat → Bool) (turn count : Nat) (said : List (Option String)) (text : String) :
    Except NuraError Aggregation → Prop where
  | interrupted {result : Except NuraError Aggregation} (place : Nat) (hit : cancelled (turn + place) = true)
      (stops : ∀ after, result = .ok after → after.output.stopReason = .cancel) :
      Collected cancelled turn count said text result
  | failed (error : NuraError) (refused : none ∈ said) : Collected cancelled turn count said text (.error error)
  | completed {after : Aggregation} (calm : ∀ place < count, cancelled (turn + place) = false)
      (told : none ∉ said) (running : after.output.cancelled = false) (reason : after.output.stopReason = .endOfTurn)
      (whole : after.output.text = text ++ String.join (said.filterMap id)) :
      Collected cancelled turn count said text (.ok after)

section Collecting

variable {cancelled : Nat → Bool} {turn count : Nat} {text : String} {result : Except NuraError Aggregation}

theorem Collected.silent (rest : Collected cancelled turn count said text result) :
    Collected cancelled turn count (some "" :: said) text result := by
  cases rest with
  | interrupted place hit stops => exact .interrupted place hit stops
  | failed error refused => exact .failed error (.tail _ refused)
  | completed calm told running reason whole =>
    refine .completed calm (by simpa using told) running reason (whole.trans ?_)
    simp [String.join_cons]

theorem Collected.spoken (calm : cancelled turn = false) (spoken : String)
    (rest : Collected cancelled (turn + 1) count said (text ++ spoken) result) :
    Collected cancelled turn (count + 1) (some spoken :: said) text result := by
  cases rest with
  | interrupted place hit stops =>
    rw [Nat.add_assoc] at hit
    exact .interrupted (1 + place) hit stops
  | failed error refused => exact .failed error (.tail _ refused)
  | completed later told running reason whole =>
    refine .completed (fun place small => ?_) (by simpa using told) running reason (whole.trans ?_)
    · cases place with
      | zero => exact calm
      | succ place =>
        have here := later place (Nat.lt_of_succ_lt_succ small)
        rwa [Nat.add_assoc, Nat.add_comm 1 place] at here
    · simp [String.join_cons, String.append_assoc]

end Collecting

variable {registry : ToolRegistry} {config : TurnConfig} {around : Surroundings} {left : Nat} {now : TurnState}

end NuraOS.Agent
