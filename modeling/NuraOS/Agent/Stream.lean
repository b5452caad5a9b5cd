/-
Purpose: Messages, events and errors (`nura-core/src/provider/`), and assembling the events of a reply, in one
  thread or two (`nura-core/src/stream.rs`).
Trusted boundary: the scheduler picks the next step of either thread; a timeout may come at any time.
-/
import NuraOS.Foundation.Json

namespace NuraOS.Agent

open Foundation.Serde (Value)

inductive Role where
  | system
  | user
  | assistant
  | tool
deriving DecidableEq

inductive ContentPart where
  | text (text : String)
  /-- A request issued by the assistant to call a tool. -/
  | toolCallRequest (id name : String) (arguments : Value)
  /-- The output of a tool, addressed by the call ID; an error when the call itself failed. -/
  | toolCallResult (callId : String) (output : Value) (error : Option String)

structure Message where
  role : Role
  parts : List ContentPart

inductive StopReason where
  | endOfTurn
  | maxTokens
  | toolCall
  | cancel
  | error
deriving DecidableEq

structure Usage where
  promptTokens : UInt32
  completionTokens : UInt32
deriving DecidableEq

inductive StreamEvent where
  /-- A chunk of assistant text. -/
  | tokenDelta (text : String)
  /-- A chunk of a tool call being assembled. -/
  | toolCallDelta (id : String) (name : Option String) (argumentsChunk : String)
  | usage (usage : Usage)
  | done (stopReason : StopReason)
  | error (message : String)
deriving DecidableEq

inductive NuraError where
  | provider (name detail : String)
  | tool (name detail : String)
  | budgetExceeded (detail : String)
  | internal (detail : String)
deriving DecidableEq

/-- `Display` of an error. -/
def NuraError.text : NuraError → String
  | .provider name detail => "provider '" ++ name ++ "' error: " ++ detail
  | .tool name detail => "tool '" ++ name ++ "' error: " ++ detail
  | .budgetExceeded detail => "budget exceeded: " ++ detail
  | .internal detail => "internal error: " ++ detail

abbrev Item := Except NuraError StreamEvent

def Item.Final : Item → Prop
  | .error _ => True
  | .ok (.done _) => True
  | .ok _ => False

/-- When the caller cancels. Moments are counted by the lines a stream has read: an even one is before a line
is read and the odd one after it is when it has just been read. A stream looks at the token at most once in a
moment, so every time of cancelling is one of these, or never. -/
abbrev CancelToken := Option Nat

def CancelToken.isCancelled (cancel : CancelToken) (moment : Nat) : Bool :=
  cancel.any (· ≤ moment)

theorem CancelToken.isCancelled_mono {cancel : CancelToken} {earlier later : Nat} (order : earlier ≤ later)
    (before : cancel.isCancelled earlier = true) : cancel.isCancelled later = true := by
  cases cancel with
  | none => exact before
  | some moment => exact decide_eq_true (Nat.le_trans (of_decide_eq_true before) order)

structure AssembledToolCall where
  id : String
  name : String
  argumentsJson : String
deriving DecidableEq

structure AggregatedOutput where
  text : String
  toolCalls : List AssembledToolCall
  usage : Option Usage
  stopReason : StopReason
  cancelled : Bool
  timedOut : Bool

/-- `AggregatedOutput::default()`. -/
def AggregatedOutput.empty : AggregatedOutput where
  text := ""
  toolCalls := []
  usage := none
  stopReason := .endOfTurn
  cancelled := false
  timedOut := false

@[ext] structure PartialToolCall where
  id : String
  name : String
  arguments : String

structure Aggregation where
  output : AggregatedOutput
  partialCalls : List PartialToolCall

/-- A delta of a call: its name replaces an earlier one, its arguments are appended. -/
def PartialToolCall.extend (call : PartialToolCall) (name : Option String) (chunk : String) : PartialToolCall :=
  { call with name := name.getD call.name, arguments := call.arguments ++ chunk }

def extendCall (id : String) (name : Option String) (chunk : String) : List PartialToolCall → List PartialToolCall
  | [] => [PartialToolCall.extend ⟨id, "", ""⟩ name chunk]
  | call :: calls =>
    if call.id = id then call.extend name chunk :: calls else call :: extendCall id name chunk calls

def mergeUsage (existing : Option Usage) (usage : Usage) : Usage :=
  match existing with
  | none => usage
  | some existing =>
    { promptTokens := if usage.promptTokens > 0 then usage.promptTokens else existing.promptTokens
      completionTokens :=
        if usage.completionTokens > 0 then usage.completionTokens else existing.completionTokens }

def handleEvent (event : StreamEvent) (state : Aggregation) : Except NuraError (Bool × Aggregation) :=
  match event with
  | .tokenDelta text =>
    .ok (false, { state with output := { state.output with text := state.output.text ++ text } })
  | .toolCallDelta id name chunk =>
    .ok (false, { state with partialCalls := extendCall id name chunk state.partialCalls })
  | .usage usage =>
    .ok (false,
      { state with output := { state.output with usage := some (mergeUsage state.output.usage usage) } })
  | .done stopReason => .ok (true, { state with output := { state.output with stopReason } })
  | .error message => .error (.provider "stream" message)

/-- The loop over the items. The caller may cancel before an item is handled. -/
def collectEvents (cancelled : Nat → Bool) : Nat → Aggregation → List Item → Except NuraError Aggregation
  | _, state, [] => .ok state
  | turn, state, item :: items =>
    if cancelled turn then
      .ok { state with output := { state.output with cancelled := true, stopReason := .cancel } }
    else
      match item with
      | .error error => .error error
      | .ok event =>
        match handleEvent event state with
        | .error error => .error error
        | .ok (true, state) => .ok state
        | .ok (false, state) => collectEvents cancelled (turn + 1) state items

def assembleCalls (calls : List PartialToolCall) : List AssembledToolCall :=
  (calls.filter fun call => call.id ≠ "" ∧ call.name ≠ "").map fun call =>
    ⟨call.id, call.name, call.arguments⟩

/-- `aggregate_sync`: drive the events of a stream on the calling thread. -/
def aggregateSync (cancelled : Nat → Bool) (items : List Item) : Except NuraError AggregatedOutput :=
  match collectEvents cancelled 0 ⟨.empty, []⟩ items with
  | .error error => .error error
  | .ok state => .ok { state.output with toolCalls := assembleCalls state.partialCalls }

structure Collector where
  state : Aggregation
  /-- The calls of `on_token`. -/
  tokens : List String
  /-- How the loop was left. -/
  ended : Option (Except NuraError Aggregation)

def Collector.start : Collector := ⟨⟨.empty, []⟩, [], none⟩

def Collector.leave (c : Collector) : Collector := { c with ended := some (.ok c.state) }

def onToken : StreamEvent → List String
  | .tokenDelta text => [text]
  | _ => []

def Collector.handle (c : Collector) : Item → Collector
  | .error error => { c with ended := some (.error error) }
  | .ok event =>
    let tokens := c.tokens ++ onToken event
    match handleEvent event c.state with
    | .error error => ⟨c.state, tokens, some (.error error)⟩
    | .ok (true, state) => ⟨state, tokens, some (.ok state)⟩
    | .ok (false, state) => ⟨state, tokens, none⟩

/-- The loop of `aggregate_sync` that nobody cancels. -/
def Collector.drain (c : Collector) : List Item → Collector
  | [] => c.leave
  | item :: items => if (c.handle item).ended.isSome then c.handle item else (c.handle item).drain items

def Collector.cancel (c : Collector) : Collector :=
  { c with state.output := { c.state.output with cancelled := true, stopReason := .cancel } }.leave

def Collector.timeOut (c : Collector) : Collector :=
  { c with state.output := { c.state.output with timedOut := true, stopReason := .error } }.leave

def Collector.returned (c : Collector) : Option (Except NuraError AggregatedOutput) :=
  c.ended.map fun result =>
    result.map fun state => { state.output with toolCalls := assembleCalls state.partialCalls }

inductive Producer where
  | looping
  /-- An item was taken and found not to be cancelled, and `tx.send` is called. -/
  | sending (item : Item)
  /-- The thread is over and `tx` dropped. -/
  | ended

structure Threads where
  /-- What the provider will still give. -/
  events : List Item
  producer : Producer
  queue : List Item
  cancelled : Bool
  consumer : Collector
  /-- The consumer is in `recv_timeout`. -/
  waiting : Bool

def Threads.start (items : List Item) : Threads := ⟨items, .looping, [], false, .start, false⟩

inductive Act where
  | take
  | send
  | check
  | receive
  | timeOut
  | cancel
deriving DecidableEq

def Threads.step (queueDepth : Nat) (t : Threads) : Act → Option Threads
  | .take =>
    match t.producer, t.events with
    | .looping, [] => some { t with producer := .ended }
    | .looping, item :: events =>
      some { t with events, producer := if t.cancelled then .ended else .sending item }
    | _, _ => none
  | .send =>
    match t.producer with
    | .sending item =>
      -- `rx` is dropped with the consumer's loop.
      if t.consumer.ended.isSome then some { t with producer := .ended }
      else if t.queue.length < max queueDepth 1 then
        some { t with producer := .looping, queue := t.queue ++ [item] }
      else none
    | _ => none
  | .check =>
    if t.consumer.ended.isSome ∨ t.waiting then none
    else if t.cancelled then some { t with consumer := t.consumer.cancel }
    else some { t with waiting := true }
  | .receive =>
    match t.waiting, t.queue, t.producer with
    | true, item :: queue, _ => some { t with queue, consumer := t.consumer.handle item, waiting := false }
    | true, [], .ended => some { t with consumer := t.consumer.leave, waiting := false }
    | _, _, _ => none
  | .timeOut =>
    if t.consumer.ended.isSome then none
    else some { t with consumer := t.consumer.timeOut, waiting := false, cancelled := true }
  | .cancel => some { t with cancelled := true }

def Act.Undisturbed (act : Act) : Prop := act ≠ .timeOut ∧ act ≠ .cancel

end NuraOS.Agent
