/-
Purpose: Tools, contexts and turns of the agent (`nura-core/src/tool.rs`, `context.rs`, `turn.rs`), and the tool
  `fs.read` (`nura-agent/src/tools/fs_read.rs`).
Trusted boundary: The provider, the clock, the caller's cancelling and whether a tool answers in time are
  oracles; a tool is a function of its arguments; `serde_json` writes values, and its `from_str` is a
  parameter; sums of token estimates wrap as in a release build; a file system opens paths and reads
  files, and one read of a file gives as much as fits.
-/
import Mathlib.Algebra.Ring.Nat
import NuraOS.Agent.Stream

namespace NuraOS.Agent

open Foundation.Serde (Value Number)

def checkType (value : Value) (expected : String) : Bool :=
  match expected, value with
  | "string", .string _ => true
  | "string", _ => false
  | "number", .number _ => true
  | "number", _ => false
  | "integer", .number (.float _) => false
  | "integer", .number _ => true
  | "integer", _ => false
  | "boolean", .bool _ => true
  | "boolean", _ => false
  | "object", .object _ => true
  | "object", _ => false
  | "array", .array _ => true
  | "array", _ => false
  | "null", .null => true
  | "null", _ => false
  | _, _ => true

def jsonTypeName : Value → String
  | .null => "null"
  | .bool _ => "boolean"
  | .number (.float _) => "number"
  | .number _ => "integer"
  | .string _ => "string"
  | .array _ => "array"
  | .object _ => "object"

def containsKey (fields : List (String × Value)) (key : String) : Bool :=
  fields.any (·.1 == key)

def checkRequired (fields : List (String × Value)) : List Value → Except String Unit
  | [] => .ok ()
  | required :: others =>
    match required.asStr with
    | none => .error "required entry must be a string"
    | some field =>
      if containsKey fields field then checkRequired fields others
      else .error ("required field '" ++ field ++ "' is missing")

def checkProperties (fields : List (String × Value)) : List (String × Value) → Except String Unit
  | [] => .ok ()
  | (key, schema) :: others =>
    match (Value.object fields).get key, (schema.get "type").bind Value.asStr with
    | some value, some expected =>
      if checkType value expected then checkProperties fields others
      else
        .error ("field '" ++ key ++ "' expected type '" ++ expected ++ "' but got " ++ jsonTypeName value)
    | _, _ => checkProperties fields others

def checkAdditional (properties : List (String × Value)) : List (String × Value) → Except String Unit
  | [] => .ok ()
  | (key, _) :: others =>
    if containsKey properties key then checkAdditional properties others
    else .error ("unexpected property '" ++ key ++ "'")

def validateArgs (schema args : Value) : Except String Unit :=
  if (schema.get "type").bind Value.asStr ≠ some "object" then
    .ok ()
  else
    match args.asObject with
    | none => .error "arguments must be a JSON object"
    | some fields => do
      checkRequired fields (((schema.get "required").bind Value.asArray).getD [])
      let properties := (schema.get "properties").bind Value.asObject
      checkProperties fields (properties.getD [])
      match schema.get "additionalProperties", properties with
      | some (.bool false), some properties => checkAdditional properties fields
      | _, _ => .ok ()

structure Tool where
  name : String
  schema : Value
  execute : Value → Except NuraError Value

structure ToolBudget where
  maxCalls : Nat
  callsMade : Nat

def ToolBudget.new (maxCalls : Nat) : ToolBudget :=
  ⟨maxCalls, 0⟩

def ToolBudget.consume (budget : ToolBudget) : Except NuraError ToolBudget :=
  if budget.maxCalls ≤ budget.callsMade then
    .error (.budgetExceeded ("tool call budget of " ++ toString budget.maxCalls ++ " exceeded"))
  else
    .ok { budget with callsMade := budget.callsMade + 1 }

structure ToolRegistry where
  tools : String → Option Tool
  allowlist : String → Bool

def ToolRegistry.getAllowed (registry : ToolRegistry) (name : String) : Option Tool :=
  if registry.allowlist name then registry.tools name else none

inductive Waiting where
  | answered
  | timedOut
  | disconnected
deriving DecidableEq

def Waiting.deliver (name callTimeout : String) (result : Except NuraError Value) :
    Waiting → Except NuraError Value
  | .answered => result
  | .timedOut => .error (.budgetExceeded ("tool '" ++ name ++ "' exceeded call timeout " ++ callTimeout))
  | .disconnected => .error (.internal ("tool '" ++ name ++ "' thread terminated unexpectedly"))

/-- What a turn does to the world. -/
inductive TurnAction where
  /-- `provider.complete` is called with these messages. -/
  | complete (messages : List Message)
  /-- The thread of a tool is started with these arguments. -/
  | execute (tool : Tool) (args : Value)

/-- What a dispatched call gives, the budget it leaves and the threads it has started. -/
structure Called where
  result : Except NuraError Value
  budget : ToolBudget
  started : List TurnAction

/-- Dispatch a tool call: allowlist, schema, budget, execution. The time limit is the text `Debug` gives for it;
the calls that are executed are numbered by the budget. -/
def ToolRegistry.call (registry : ToolRegistry) (waiting : Nat → Waiting) (name : String) (args : Value)
    (callTimeout : String) (budget : ToolBudget) : Called :=
  match registry.getAllowed name with
  | none => ⟨.error (.tool name "tool is not on the allowlist"), budget, []⟩
  | some tool =>
    match validateArgs tool.schema args with
    | .error reason => ⟨.error (.tool name ("schema validation failed: " ++ reason)), budget, []⟩
    | .ok () =>
      match budget.consume with
      | .error error => ⟨.error error, budget, []⟩
      | .ok left =>
        ⟨(waiting budget.callsMade).deliver name callTimeout (tool.execute args), left, [.execute tool args]⟩

open Foundation.Serde (Value Writer)

section Estimating

variable (writer : Writer)

def ContentPart.charCount : ContentPart → Nat
  | .text words => words.utf8ByteSize
  | .toolCallRequest _ name arguments => name.utf8ByteSize + (writer.toText arguments).utf8ByteSize + 16
  | .toolCallResult _ output error =>
    (writer.toText output).utf8ByteSize + (error.map String.utf8ByteSize).getD 0 + 8

def estimateTokens (msg : Message) : UInt32 :=
  let charCount := (msg.parts.map (ContentPart.charCount writer)).sum
  UInt32.ofNat ((charCount + 3) / 4 + 4)

def estimateTotal (msgs : List Message) : UInt32 :=
  msgs.foldl (fun total msg => total + estimateTokens writer msg) 0

end Estimating

structure ContextPolicy where
  maxTokens : UInt32
  recentMessages : UInt32

/-- `u32::saturating_sub`. -/
def saturatingSub (minuend subtrahend : UInt32) : UInt32 :=
  if subtrahend ≤ minuend then minuend - subtrahend else 0

/-- `u32::saturating_add`. -/
def saturatingAdd (first second : UInt32) : UInt32 :=
  if first.toNat + second.toNat < 2 ^ 32 then first + second else 0xFFFFFFFF

section Assembling

variable (writer : Writer)

def keepRecent (tokenBudget : UInt32) : UInt32 → List Message → List Message
  | _, [] => []
  | usedTokens, msg :: older =>
    let t := estimateTokens writer msg
    if tokenBudget < saturatingAdd usedTokens t then [] else msg :: keepRecent tokenBudget (usedTokens + t) older

def systemMsgs (history : List Message) : List Message :=
  history.filter (·.role = .system)

def turnMsgs (history : List Message) : List Message :=
  history.filter (·.role ≠ .system)

def tokenBudget (history : List Message) (policy : ContextPolicy) : UInt32 :=
  saturatingSub policy.maxTokens (estimateTotal writer (systemMsgs history))

/-- Assemble the context: all system messages, then the newest turns that fit, in chronological order. -/
def assembleContext (history : List Message) (policy : ContextPolicy) : List Message :=
  let turns := turnMsgs history
  let recentStart := turns.length - policy.recentMessages.toNat
  let candidates := turns.drop recentStart
  systemMsgs history ++ (keepRecent writer (tokenBudget writer history policy) 0 candidates.reverse).reverse

end Assembling

/-! ### Turns -/

open Foundation.Serde (Reader Value)

structure TurnConfig where
  maxIterations : Nat
  /-- The time limit of a tool call, as `Debug` prints it. -/
  callTimeout : String
  toolBudget : Nat

inductive TurnEvent where
  | modelResponse (text : String) (toolCalls : List AssembledToolCall) (usage : Option Usage)
  | toolCall (id name argumentsJson : String)
  | toolResult (callId : String) (output : Value) (error : Option String)

structure TurnOutcome where
  finalText : String
  transcript : List TurnEvent
  stopReason : StopReason
  totalUsage : Usage
  iterations : Nat
  cancelled : Bool
  timedOut : Bool

structure Surroundings where
  /-- What the provider answers in an iteration. -/
  provider : Nat → List Message → List Item
  /-- The caller has cancelled at the head of an iteration. -/
  cancelled : Nat → Bool
  /-- The caller has cancelled when an item of an answer is handled. -/
  cancelledWithin : Nat → Nat → Bool
  /-- The deadline has passed at the head of an iteration. -/
  expired : Nat → Bool
  /-- How the wait for an executed tool call ends. -/
  waiting : Nat → Waiting

structure TurnState where
  messages : List Message
  budget : ToolBudget
  transcript : List TurnEvent
  totalUsage : Usage
  iterations : Nat

section Running

variable (fromStr : Reader)

def parseArguments (text : String) : Value :=
  match fromStr text with
  | .ok value => value
  | .error _ => .null

def appendAssistantMessage (messages : List Message) (agg : AggregatedOutput) : List Message :=
  let text := if agg.text = "" then [] else [ContentPart.text agg.text]
  let requests := agg.toolCalls.map fun call =>
    ContentPart.toolCallRequest call.id call.name (parseArguments fromStr call.argumentsJson)
  if text ++ requests = [] then messages else messages ++ [⟨.assistant, text ++ requests⟩]

def resultOf : Except NuraError Value → Value × Option String
  | .ok output => (output, none)
  | .error error => (.null, some error.text)

/-- What the execution of tools has produced: results and transcript, and the budget that is left. -/
structure Executed where
  results : List (String × Value × Option String)
  transcript : List TurnEvent
  budget : ToolBudget

/-- Execute tool calls in order, with the threads that are started. -/
def executeTools (registry : ToolRegistry) (waiting : Nat → Waiting) (config : TurnConfig) :
    List AssembledToolCall → Executed → List TurnAction × Executed
  | [], executed => ([], executed)
  | call :: calls, executed =>
    let args := parseArguments fromStr call.argumentsJson
    let called := registry.call waiting call.name args config.callTimeout executed.budget
    let result := resultOf called.result
    let later := executeTools registry waiting config calls
      { results := executed.results ++ [(call.id, result)]
        transcript := executed.transcript ++
          [.toolCall call.id call.name call.argumentsJson, .toolResult call.id result.1 result.2]
        budget := called.budget }
    (called.started ++ later.1, later.2)

def appendToolResults (messages : List Message) (results : List (String × Value × Option String)) : List Message :=
  if results = [] then messages
  else messages ++ [⟨.tool, results.map fun (callId, output, error) => .toolCallResult callId output error⟩]

/-- The calls of an answer that are executed: all of them when it stopped for them. -/
def requestedCalls (agg : AggregatedOutput) : List AssembledToolCall :=
  if agg.cancelled then [] else if agg.stopReason = .toolCall then agg.toolCalls else []

def TurnState.record (state : TurnState) (agg : AggregatedOutput) : TurnState :=
  { state with
    totalUsage :=
      match agg.usage with
      | none => state.totalUsage
      | some usage =>
        ⟨state.totalUsage.promptTokens + usage.promptTokens,
          state.totalUsage.completionTokens + usage.completionTokens⟩
    transcript := state.transcript ++ [.modelResponse agg.text agg.toolCalls agg.usage]
    iterations := state.iterations + 1 }

def TurnState.outcome (state : TurnState) (finalText : String) (stopReason : StopReason) (cancelled timedOut : Bool) :
    TurnOutcome where
  finalText := finalText
  transcript := state.transcript
  stopReason := stopReason
  totalUsage := state.totalUsage
  iterations := state.iterations
  cancelled := cancelled
  timedOut := timedOut

/-- The tools of an answer are executed. -/
def TurnState.execute (registry : ToolRegistry) (config : TurnConfig) (around : Surroundings) (state : TurnState)
    (agg : AggregatedOutput) : List TurnAction × Executed :=
  executeTools fromStr registry around.waiting config (requestedCalls agg)
    ⟨[], (state.record agg).transcript, (state.record agg).budget⟩

def TurnState.afterTools (registry : ToolRegistry) (config : TurnConfig) (around : Surroundings) (state : TurnState)
    (agg : AggregatedOutput) : TurnState :=
  let executed := (state.execute fromStr registry config around agg).2
  { state.record agg with
    messages := appendToolResults (appendAssistantMessage fromStr state.messages agg) executed.results
    budget := executed.budget
    transcript := executed.transcript }

def TurnState.answered (state : TurnState) (agg : AggregatedOutput) : List Message :=
  if agg.text = "" then state.messages else state.messages ++ [⟨.assistant, [.text agg.text]⟩]

abbrev TurnResult := Except NuraError TurnOutcome × List Message

/-- The loop of a turn with so many iterations left, with the log of what it does to the world. The messages are the
caller's and are kept whatever the outcome. -/
def turnLoop (registry : ToolRegistry) (config : TurnConfig) (around : Surroundings) :
    Nat → TurnState → List TurnAction × TurnResult
  | left, state =>
    if around.cancelled state.iterations then
      ([], .ok (state.outcome "" .cancel true false), state.messages)
    else if around.expired state.iterations then
      ([], .ok (state.outcome "" .error false true), state.messages)
    else
      match left with
      | 0 =>
        ([], .error (.budgetExceeded
          ("turn exceeded max_iterations (" ++ toString config.maxIterations ++ ")")), state.messages)
      | left + 1 =>
        match aggregateSync (around.cancelledWithin state.iterations)
            (around.provider state.iterations state.messages) with
        | .error error => ([.complete state.messages], .error error, state.messages)
        | .ok agg =>
          let recorded := state.record agg
          if agg.cancelled then
            ([.complete state.messages], .ok (recorded.outcome agg.text .cancel true false), state.messages)
          else if requestedCalls agg = [] then
            ([.complete state.messages], .ok (recorded.outcome agg.text agg.stopReason false false),
              state.answered agg)
          else
            let later := turnLoop registry config around left (state.afterTools fromStr registry config around agg)
            (.complete state.messages :: ((state.execute fromStr registry config around agg).1 ++ later.1), later.2)

/-- `run_turn` with its log. -/
def runTurnLogged (registry : ToolRegistry) (config : TurnConfig) (around : Surroundings) (messages : List Message) :
    List TurnAction × TurnResult :=
  turnLoop fromStr registry config around config.maxIterations
    { messages := messages
      budget := ToolBudget.new config.toolBudget
      transcript := []
      totalUsage := ⟨0, 0⟩
      iterations := 0 }

/-- `run_turn`. -/
def runTurn (registry : ToolRegistry) (config : TurnConfig) (around : Surroundings) (messages : List Message) :
    TurnResult :=
  (runTurnLogged fromStr registry config around messages).2

end Running

end NuraOS.Agent

namespace NuraOS.Tools

open Foundation
open Foundation.RustPath (Component components)
open Foundation.Serde (Value)
open Agent (NuraError Tool)

def defaultPrefixes : List String :=
  ["/data/", "/data"]

/-- `str::starts_with`. -/
def startsWith (text lead : String) : Bool :=
  lead.toList.isPrefixOf text.toList

/-- The text of a string in a `Debug` print. The allowed beginnings are plain ASCII texts; other characters
that Rust would escape do not occur in them. -/
def debugString (text : String) : String :=
  "\"" ++ String.ofList (text.toList.flatMap fun c =>
    if c = '"' then ['\\', '"'] else if c = '\\' then ['\\', '\\'] else [c]) ++ "\""

/-- The text of a list of strings in a `Debug` print. -/
def debugStrings (texts : List String) : String :=
  "[" ++ ", ".intercalate (texts.map debugString) ++ "]"

def checkPath (raw : String) (allowedPrefixes : List String) : Except String String :=
  if Component.parentDir ∈ components raw then
    .error ("path '" ++ raw ++ "' contains '..' which is not allowed")
  else if ¬ allowedPrefixes.any (startsWith raw) then
    .error ("path '" ++ raw ++ "' is outside the allowed prefixes (" ++ debugStrings allowedPrefixes ++ ")")
  else
    .ok raw

def maxReadBytes : Nat := 1024 * 1024

def defaultReadBytes : Nat := 64 * 1024

def fsReadSchema : Value :=
  Serde.object
    [("type", .string "object"), ("required", .array [.string "path"]), ("additionalProperties", .bool false),
      ("properties",
        Serde.object
          [("path",
              Serde.object
                [("type", .string "string"),
                  ("description", .string "Absolute path to the file. Must start with /data/.")]),
            ("max_bytes",
              Serde.object
                [("type", .string "integer"),
                  ("description", .string "Maximum bytes to read (default 65536, max 1048576).")])])]

/-- Files as the tool sees them: a path is opened or there is a reason why not, and so for reading. -/
structure FileSystem (Inode : Type) where
  openFile : String → Except String Inode
  contents : Inode → Except String Bytes

def fsReadError (detail : String) : NuraError :=
  .tool "fs.read" detail

/-- What is returned of a file, of which one byte more than wanted has been read. -/
def readResult (path : String) (maxBytes : Nat) (bytes : Bytes) : Value :=
  let buffer := bytes.take (maxBytes + 1)
  let slice := buffer.take maxBytes
  Serde.object
    [("path", .string path), ("content", .string (RustText.fromUtf8Lossy slice)),
      ("bytes_read", .number (.posInt (UInt64.ofNat slice.length))), ("truncated", .bool (maxBytes < buffer.length))]

def readFile {Inode : Type} (files : FileSystem Inode) (maxBytes : Nat) (path : String) : Except NuraError Value :=
  match files.openFile path with
  | .error e => .error (fsReadError ("cannot open '" ++ path ++ "': " ++ e))
  | .ok file =>
    match files.contents file with
    | .error e => .error (fsReadError ("read error on '" ++ path ++ "': " ++ e))
    | .ok bytes => .ok (readResult path maxBytes bytes)

def requestedBytes (args : Value) : Nat :=
  (args.index "max_bytes").asU64.elim defaultReadBytes fun n => min n.toNat maxReadBytes

def fsReadExecute {Inode : Type} (files : FileSystem Inode) (allowedPrefixes : List String) (args : Value) :
    Except NuraError Value :=
  match (args.index "path").asStr with
  | none => .error (fsReadError "path must be a string")
  | some path =>
    match checkPath path allowedPrefixes with
    | .error reason => .error (fsReadError reason)
    | .ok path => readFile files (requestedBytes args) path

def fsRead {Inode : Type} (files : FileSystem Inode) : Tool where
  name := "fs.read"
  schema := fsReadSchema
  execute := fsReadExecute files defaultPrefixes

end NuraOS.Tools
