/-
Purpose: The streams of the three providers (`nura-agent/src/providers/`), and what their servers say.
Trusted boundary: `serde_json::from_str` is a parameter; the shape of chunks and events is the protocol's, and
  a JSON text stands for what is read.
-/
import NuraOS.Agent.Stream

namespace NuraOS.Agent

open Foundation (utf8)
open Foundation.RustText (EndsSolid Input White trim stripLead)
open Foundation.Serde (Reader Value)

namespace Anthropic

/-- The `tool_use` block currently being streamed. -/
structure Pending where
  toolId : Option String
  toolName : Option String

def Pending.none : Pending :=
  ⟨.none, .none⟩

inductive ParseResult where
  | continues
  | emit (event : StreamEvent)
  | error (error : NuraError)

def tokens (value : Value) : UInt32 :=
  (value.asU64.getD 0).toUInt32

def parseEvent (fromStr : Reader) (eventType data : String) (pending : Pending) : ParseResult × Pending :=
  match fromStr data with
  | .error _ => (.continues, pending)
  | .ok value =>
    match eventType with
    | "content_block_start" =>
      let block := value.index "content_block"
      if (block.index "type").asStr.getD "" = "tool_use" then
        (.continues, ⟨(block.index "id").asStr, (block.index "name").asStr⟩)
      else
        (.continues, pending)
    | "content_block_delta" =>
      let delta := value.index "delta"
      match (delta.index "type").asStr.getD "" with
      | "text_delta" =>
        let text := (delta.index "text").asStr.getD ""
        if text = "" then (.continues, pending) else (.emit (.tokenDelta text), pending)
      | "input_json_delta" =>
        let chunk := (delta.index "partial_json").asStr.getD ""
        (.emit (.toolCallDelta (pending.toolId.getD "") pending.toolName chunk),
          { pending with toolName := none })
      | _ => (.continues, pending)
    | "content_block_stop" => (.continues, .none)
    | "message_delta" =>
      (.emit (.usage ⟨0, tokens ((value.index "usage").index "output_tokens")⟩), pending)
    | "message_start" =>
      let input := tokens (((value.index "message").index "usage").index "input_tokens")
      if input > 0 then (.emit (.usage ⟨input, 0⟩), pending) else (.continues, pending)
    | "message_stop" =>
      let stopReason : StopReason :=
        match ((value.index "message_stop").index "stop_reason").asStr.getD "end_turn" with
        | "max_tokens" => .maxTokens
        | "tool_use" => .toolCall
        | _ => .endOfTurn
      (.emit (.done stopReason), pending)
    | "error" =>
      let message := ((value.index "error").index "message").asStr.getD "unknown error"
      (.error (.provider "anthropic" message), pending)
    | _ => (.continues, pending)

structure AnthropicStream where
  /-- What the calls of `read_line` still have to give. -/
  reads : List (Except String String)
  /-- How many there were. -/
  taken : Nat
  done : Bool
  pending : Pending

def AnthropicStream.start (reads : List (Except String String)) : AnthropicStream :=
  ⟨reads, 0, false, .none⟩

section Reading

variable (fromStr : Reader) (cancel : CancelToken)

/-- The two loops of `next` as one: read lines for an event of this name and data so far, and when an event says
nothing, look at the token and read on for the next one. -/
def scan (pending : Pending) (eventType dataLine : String) :
    Nat → List (Except String String) → Option Item × AnthropicStream
  | taken, [] => (some (.ok (.done .endOfTurn)), ⟨[], taken, true, pending⟩)
  | taken, .error failure :: reads =>
    (some (.error (.provider "anthropic" ("stream read error: " ++ failure))), ⟨reads, taken + 1, true, pending⟩)
  | taken, .ok line :: reads =>
    let trimmed := trim line
    if trimmed = "" then
      if dataLine = "" then
        scan pending eventType dataLine (taken + 1) reads
      else
        -- A blank line after data dispatches the event.
        match parseEvent fromStr eventType dataLine pending with
        | (.continues, pending) =>
          if cancel.isCancelled (2 * (taken + 1)) then
            (some (.ok (.done .cancel)), ⟨reads, taken + 1, true, pending⟩)
          else
            scan pending "" "" (taken + 1) reads
        | (.emit (.done stopReason), pending) =>
          (some (.ok (.done stopReason)), ⟨reads, taken + 1, true, pending⟩)
        | (.emit event, pending) => (some (.ok event), ⟨reads, taken + 1, false, pending⟩)
        | (.error error, pending) => (some (.error error), ⟨reads, taken + 1, true, pending⟩)
    else
      match stripLead "event: " trimmed, stripLead "data: " trimmed with
      | some rest, _ => scan pending rest dataLine (taken + 1) reads
      | none, some rest => scan pending eventType rest (taken + 1) reads
      | none, none => scan pending eventType dataLine (taken + 1) reads

/-- `Iterator::next`. -/
def AnthropicStream.next (stream : AnthropicStream) : Option Item × AnthropicStream :=
  if stream.done then
    (none, stream)
  else if cancel.isCancelled (2 * stream.taken) then
    (some (.ok (.done .cancel)), { stream with done := true })
  else
    scan fromStr cancel stream.pending "" "" stream.taken stream.reads

end Reading

end Anthropic

namespace OpenAi

structure ToolEntry where
  id : String
  name : String
  arguments : String

/-- The tool calls by index. The map is only ever asked for the entry of an index, which is empty at first. -/
abbrev Pending := UInt64 → ToolEntry

def Pending.none : Pending :=
  fun _ => ⟨"", "", ""⟩

inductive ChunkResult where
  | continues
  | emit (event : StreamEvent)
  | error (error : NuraError)

def noteEntry (entry : ToolEntry) (piece : Value) : ToolEntry :=
  { entry with
    id := (piece.index "id").asStr.getD entry.id
    name := ((piece.index "function").index "name").asStr.getD entry.name }

/-- The loop over `tool_calls`: the first piece with arguments ends it. -/
def readEntries (pending : Pending) : List Value → ChunkResult × Pending
  | [] => (.continues, pending)
  | piece :: pieces =>
    let index := (piece.index "index").asU64.getD 0
    let entry := noteEntry (pending index) piece
    match ((piece.index "function").index "arguments").asStr with
    | some arguments =>
      let entry := { entry with arguments := entry.arguments ++ arguments }
      let firstName := if entry.arguments = arguments ∧ entry.name ≠ "" then some entry.name else none
      (.emit (.toolCallDelta entry.id firstName arguments), Function.update pending index entry)
    | none => readEntries (Function.update pending index entry) pieces

/-- The stop reason of a `finish_reason`. -/
def stopReason (reason : String) : StopReason :=
  match reason with
  | "length" => .maxTokens
  | "tool_calls" => .toolCall
  | _ => .endOfTurn

def readChoice (choice : Value) (pending : Pending) : ChunkResult × Pending :=
  let reason := (choice.index "finish_reason").asStr.getD ""
  if reason ≠ "" then
    (.emit (.done (stopReason reason)), pending)
  else
    let delta := choice.index "delta"
    let text := (delta.index "content").asStr.getD ""
    if text ≠ "" then
      (.emit (.tokenDelta text), pending)
    else
      readEntries pending ((delta.index "tool_calls").asArray.getD [])

def readChunk (value : Value) (pending : Pending) : ChunkResult × Pending :=
  match value.get "error" with
  | some error =>
    (.error (.provider "openai-compat" ((error.index "message").asStr.getD "unknown error")), pending)
  | none =>
    match (value.get "usage").filter (!·.isNull) with
    | some usage =>
      let prompt := ((usage.index "prompt_tokens").asU64.getD 0).toUInt32
      let completion := ((usage.index "completion_tokens").asU64.getD 0).toUInt32
      (.emit (.usage ⟨prompt, completion⟩), pending)
    | none =>
      match (value.index "choices").asArray.getD [] with
      | [] => (.continues, pending)
      | choice :: _ => readChoice choice pending

def readLine (fromStr : Reader) (line : String) (pending : Pending) : ChunkResult × Pending :=
  let trimmed := trim line
  if trimmed = "data: [DONE]" then
    (.emit (.done .endOfTurn), pending)
  else
    match stripLead "data: " trimmed with
    | none => (.continues, pending)
    | some json =>
      if json = "" then
        (.continues, pending)
      else
        match fromStr json with
        | .error _ => (.continues, pending)
        | .ok value => readChunk value pending

structure OpenAiStream where
  /-- What the calls of `read_line` still have to give. -/
  reads : List (Except String String)
  /-- How many there were. -/
  taken : Nat
  done : Bool
  pending : Pending

def OpenAiStream.start (reads : List (Except String String)) : OpenAiStream :=
  ⟨reads, 0, false, .none⟩

section Reading

variable (fromStr : Reader) (cancel : CancelToken)

/-- The loop of `next`: look at the token, read a line, and go on when it says nothing. -/
def scan (pending : Pending) (taken : Nat) (reads : List (Except String String)) : Option Item × OpenAiStream :=
  if cancel.isCancelled (2 * taken) then
    (some (.ok (.done .cancel)), ⟨reads, taken, true, pending⟩)
  else
    match reads with
    | [] => (some (.ok (.done .endOfTurn)), ⟨[], taken, true, pending⟩)
    | .error failure :: reads =>
      (some (.error (.provider "openai-compat" ("stream read error: " ++ failure))),
        ⟨reads, taken + 1, true, pending⟩)
    | .ok line :: reads =>
      match readLine fromStr line pending with
      | (.continues, pending) => scan pending (taken + 1) reads
      | (.emit (.done stopReason), pending) =>
        (some (.ok (.done stopReason)), ⟨reads, taken + 1, true, pending⟩)
      | (.emit event, pending) => (some (.ok event), ⟨reads, taken + 1, false, pending⟩)
      | (.error error, pending) => (some (.error error), ⟨reads, taken + 1, true, pending⟩)

/-- `Iterator::next`. -/
def OpenAiStream.next (stream : OpenAiStream) : Option Item × OpenAiStream :=
  if stream.done then
    (none, stream)
  else
    scan fromStr cancel stream.pending stream.taken stream.reads

end Reading

end OpenAi

namespace LocalServer

def tokens (value : Value) (key : String) : UInt32 :=
  (((value.get key).bind Value.asU64).getD 0).toUInt32

def parseSseLine (fromStr : Reader) (line : String) : Option Item :=
  match stripLead "data: " line with
  | none => none
  | some json =>
    if trim json = "" then
      none
    else
      match fromStr json with
      | .error failure => some (.error (.provider "local" ("invalid SSE JSON: " ++ failure)))
      | .ok value =>
        if ((value.get "stop").bind Value.asBool).getD false then
          some (.ok (.usage ⟨tokens value "tokens_evaluated", tokens value "tokens_predicted"⟩))
        else
          let content := ((value.get "content").bind Value.asStr).getD ""
          if content = "" then none else some (.ok (.tokenDelta content))

structure LocalStream where
  /-- What the calls of `read_line` still have to give. -/
  reads : List (Except String String)
  /-- How many there were. -/
  taken : Nat
  done : Bool

def LocalStream.start (reads : List (Except String String)) : LocalStream :=
  ⟨reads, 0, false⟩

section Reading

variable (fromStr : Reader) (cancel : CancelToken)

/-- The loop of `next`: read a line, look at the token, and go on when the line says nothing. -/
def scan : Nat → List (Except String String) → Option Item × LocalStream
  | taken, [] => (some (.ok (.done .endOfTurn)), ⟨[], taken, true⟩)
  | taken, .error failure :: reads =>
    (some (.error (.provider "local" ("stream read error: " ++ failure))), ⟨reads, taken + 1, true⟩)
  | taken, .ok line :: reads =>
    if cancel.isCancelled (2 * taken + 1) then
      (some (.ok (.done .cancel)), ⟨reads, taken + 1, true⟩)
    else
      match parseSseLine fromStr (trim line) with
      | none => scan (taken + 1) reads
      -- The usage marks the end; no event follows it.
      | some (.ok (.usage usage)) => (some (.ok (.usage usage)), ⟨reads, taken + 1, true⟩)
      | some item => (some item, ⟨reads, taken + 1, false⟩)

/-- `Iterator::next`. -/
def LocalStream.next (stream : LocalStream) : Option Item × LocalStream :=
  if stream.done then
    (none, stream)
  else if cancel.isCancelled (2 * stream.taken) then
    (some (.ok (.done .cancel)), { stream with done := true })
  else
    scan fromStr cancel stream.taken stream.reads

end Reading

end LocalServer

namespace ChatCompletions

/-- An entry of `tool_calls`. -/
structure Entry where
  index : UInt64
  id : Option String
  name : Option String
  arguments : Option String
deriving DecidableEq

structure Delta where
  content : Option String
  entries : List Entry

structure Counts where
  prompt : UInt64
  completion : UInt64

structure Completion where
  /-- The chunks before the one with the finish reason. -/
  deltas : List Delta
  /-- What the chunk with the finish reason adds. -/
  last : Delta
  finishReason : String
  usage : Option Counts

def Completion.entries (completion : Completion) : List Entry :=
  (completion.deltas ++ [completion.last]).flatMap Delta.entries

def Completion.text (completion : Completion) : String :=
  String.join ((completion.deltas ++ [completion.last]).filterMap Delta.content)

def argumentsOf (index : UInt64) (entries : List Entry) : String :=
  String.join ((entries.filter (·.index = index)).filterMap Entry.arguments)

def Entry.call? (entries : List Entry) (entry : Entry) : Option AssembledToolCall :=
  match entry.id, entry.name with
  | some id, some name => some ⟨id, name, argumentsOf entry.index entries⟩
  | _, _ => none

def Completion.toolCalls (completion : Completion) : List AssembledToolCall :=
  completion.entries.filterMap (Entry.call? completion.entries)

def denoted (finishReason : String) : StopReason :=
  match finishReason with
  | "length" => .maxTokens
  | "tool_calls" => .toolCall
  | _ => .endOfTurn

/-- The output tells what the completion said: all content, every tool call, the usage reported and the reason why
it finished. -/
def Completion.Decoded (completion : Completion) (output : AggregatedOutput) : Prop :=
  output.text = completion.text ∧ output.toolCalls.Perm completion.toolCalls ∧
    output.usage.map (fun usage => (usage.promptTokens.toNat, usage.completionTokens.toNat)) =
      completion.usage.map (fun counts => (counts.prompt.toNat, counts.completion.toNat)) ∧
    output.stopReason = denoted completion.finishReason

/-- The entries of one index belong to one call: the first carries ID and name, the others neither. -/
structure Entry.WellFormed (entries : List Entry) : Prop where
  later : entries.Pairwise fun earlier later => later.index = earlier.index → later.id = none ∧ later.name = none
  both : ∀ entry ∈ entries, entry.id.isSome = entry.name.isSome
  opened : ∀ entry ∈ entries, ∃ first ∈ entries, first.index = entry.index ∧ first.id.isSome = true

inductive Part where
  | delta (added : Delta)
  | finish (reason : String) (added : Delta)
  | usage (counts : Counts)

def Completion.parts (completion : Completion) : List Part :=
  completion.deltas.map .delta ++ .finish completion.finishReason completion.last ::
    completion.usage.toList.map .usage

def Entry.Carried (entry : Entry) (value : Value) : Prop :=
  (value.index "index").asU64 = some entry.index ∧ (value.index "id").asStr = entry.id ∧
    ((value.index "function").index "name").asStr = entry.name ∧
    ((value.index "function").index "arguments").asStr = entry.arguments

def Delta.Carried (delta : Delta) (value : Value) : Prop :=
  (value.index "content").asStr = delta.content ∧
    List.Forall₂ Entry.Carried delta.entries ((value.index "tool_calls").asArray.getD [])

def firstChoice (value : Value) : Option Value :=
  ((value.index "choices").asArray.getD []).head?

def CarriedChoice (reason : Option String) (delta : Delta) (value : Value) : Prop :=
  value.get "error" = none ∧ (value.get "usage").filter (!·.isNull) = none ∧
    ∃ choice ∈ firstChoice value,
      (choice.index "finish_reason").asStr = reason ∧ delta.Carried (choice.index "delta")

def CarriedCounts (counts : Counts) (value : Value) : Prop :=
  value.get "error" = none ∧ ∃ usage ∈ value.get "usage", usage.isNull = false ∧
    (usage.index "prompt_tokens").asU64 = some counts.prompt ∧
    (usage.index "completion_tokens").asU64 = some counts.completion

/-- The fields of a JSON value that say what a chunk says; there may be others. -/
def Part.Carried (part : Part) (value : Value) : Prop :=
  match part with
  | .delta added => CarriedChoice none added value
  | .finish reason added => CarriedChoice (some reason) added value
  | .usage counts => CarriedCounts counts value

/-- The lines of a sequence of chunks up to `[DONE]`: one line for each; white space may follow on a line, and blank
lines stand anywhere. -/
inductive Sent (fromStr : Reader) : List Part → List String → Prop where
  | done {lines : List String} {ending : String} (white : White ending) :
      Sent fromStr [] (("data: " ++ "[DONE]" ++ ending) :: lines)
  | blank {parts : List Part} {lines : List String} {line : String} (white : White line)
      (rest : Sent fromStr parts lines) : Sent fromStr parts (line :: lines)
  | part {parts : List Part} {lines : List String} {part : Part} {value : Value} {data ending : String}
      (white : White ending) (solid : EndsSolid data) (proper : data ≠ "[DONE]")
      (read : fromStr data = .ok value) (carried : part.Carried value) (rest : Sent fromStr parts lines) :
      Sent fromStr (part :: parts) (("data: " ++ data ++ ending) :: lines)

structure Transcript (fromStr : Reader) where
  completion : Completion
  finished : completion.finishReason ≠ ""
  wellFormed : Entry.WellFormed completion.entries
  lines : List String
  sent : Sent fromStr completion.parts lines
  single : ∀ line ∈ lines, '\n' ∉ line.toList

def Transcript.input {fromStr : Reader} (transcript : Transcript fromStr) : Input where
  bytes := (transcript.lines.map fun line => utf8 (line ++ "\n")).flatten
  failure := none

end ChatCompletions

namespace MessagesApi

inductive Block where
  | text (deltas : List String)
  | toolUse (id name : String) (chunks : List String)

structure Reply where
  inputTokens : UInt64
  blocks : List Block
  stopReason : String
  outputTokens : UInt64

def Block.deltas : Block → List String
  | .text deltas => deltas
  | .toolUse .. => []

def Block.call? : Block → Option AssembledToolCall
  | .text _ => none
  | .toolUse id name chunks => some ⟨id, name, String.join chunks⟩

def Reply.text (reply : Reply) : String :=
  String.join (reply.blocks.flatMap Block.deltas)

def Reply.toolCalls (reply : Reply) : List AssembledToolCall :=
  reply.blocks.filterMap Block.call?

def denoted (stopReason : String) : StopReason :=
  match stopReason with
  | "tool_use" => .toolCall
  | "max_tokens" => .maxTokens
  | _ => .endOfTurn

/-- The output tells what the reply said: all text, the tool calls in the order of their blocks, the counts and the
stop reason. -/
def Reply.Decoded (reply : Reply) (output : AggregatedOutput) : Prop :=
  output.text = reply.text ∧ output.toolCalls = reply.toolCalls ∧
    (∃ usage, output.usage = some usage ∧ usage.promptTokens.toNat = reply.inputTokens.toNat ∧
      usage.completionTokens.toNat = reply.outputTokens.toNat) ∧
    output.stopReason = denoted reply.stopReason

inductive Event where
  | messageStart (inputTokens : UInt64)
  | textStart
  | toolStart (id name : String)
  | textDelta (text : String)
  | inputJsonDelta (chunk : String)
  | blockStop
  | messageDelta (stopReason : String) (outputTokens : UInt64)
  | messageStop
  | ping
deriving DecidableEq

def Event.name : Event → String
  | .messageStart _ => "message_start"
  | .textStart | .toolStart .. => "content_block_start"
  | .textDelta _ | .inputJsonDelta _ => "content_block_delta"
  | .blockStop => "content_block_stop"
  | .messageDelta .. => "message_delta"
  | .messageStop => "message_stop"
  | .ping => "ping"

/-- The fields of a JSON value that say what the event says; there may be others. -/
def Event.Carried (event : Event) (value : Value) : Prop :=
  match event with
  | .messageStart inputTokens =>
    (((value.index "message").index "usage").index "input_tokens").asU64 = some inputTokens
  | .textStart => ((value.index "content_block").index "type").asStr = some "text"
  | .toolStart id name =>
    ((value.index "content_block").index "type").asStr = some "tool_use" ∧
      ((value.index "content_block").index "id").asStr = some id ∧
      ((value.index "content_block").index "name").asStr = some name
  | .textDelta text =>
    ((value.index "delta").index "type").asStr = some "text_delta" ∧
      ((value.index "delta").index "text").asStr = some text
  | .inputJsonDelta chunk =>
    ((value.index "delta").index "type").asStr = some "input_json_delta" ∧
      ((value.index "delta").index "partial_json").asStr = some chunk
  | .messageDelta stopReason outputTokens =>
    ((value.index "delta").index "stop_reason").asStr = some stopReason ∧
      ((value.index "usage").index "output_tokens").asU64 = some outputTokens
  | .messageStop => value.get "message_stop" = none
  | .blockStop | .ping => True

def Block.events : Block → List Event
  | .text deltas => .textStart :: deltas.map .textDelta ++ [.blockStop]
  | .toolUse id name chunks => .toolStart id name :: chunks.map .inputJsonDelta ++ [.blockStop]

def Reply.events (reply : Reply) : List Event :=
  .messageStart reply.inputTokens :: reply.blocks.flatMap Block.events ++
    [.messageDelta reply.stopReason reply.outputTokens, .messageStop]

/-- The lines of a sequence of events: for each its name, its data and a blank line; white space may follow on a
line, and further blank lines stand anywhere. -/
inductive Sent (fromStr : Reader) : List Event → List String → Prop where
  | nil : Sent fromStr [] []
  | blank {events : List Event} {lines : List String} {line : String} (white : White line)
      (rest : Sent fromStr events lines) : Sent fromStr events (line :: lines)
  | event {events : List Event} {lines : List String} {event : Event} {value : Value} {data : String}
      {nameEnd dataEnd close : String} {between : List String}
      (whiteName : White nameEnd) (whiteData : White dataEnd) (whiteClose : White close)
      (whiteBetween : ∀ line ∈ between, White line)
      (solid : EndsSolid data)
      (read : fromStr data = .ok value) (carried : event.Carried value)
      (rest : Sent fromStr events lines) :
      Sent fromStr (event :: events)
        (("event: " ++ event.name ++ nameEnd) :: between ++ ("data: " ++ data ++ dataEnd) :: close :: lines)

structure Transcript (fromStr : Reader) where
  reply : Reply
  events : List Event
  lines : List String
  /-- The events are those of the reply, with pings in between. -/
  pings : events.filter (· ≠ .ping) = reply.events
  sent : Sent fromStr events lines
  single : ∀ line ∈ lines, '\n' ∉ line.toList

def Transcript.input {fromStr : Reader} (transcript : Transcript fromStr) : Input where
  bytes := (transcript.lines.map fun line => utf8 (line ++ "\n")).flatten
  failure := none

end MessagesApi

end NuraOS.Agent
