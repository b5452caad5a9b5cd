/-
Purpose: What holds of every turn of the agent, and what is left of a history when the context is assembled.
-/
import NuraOS.Agent.Turn
import NuraOS.Proofs.Aggregation

namespace NuraOS.Agent

open Foundation.Serde (Reader Value)
open List

/-! ### Tool calls

What a call of the registry can do is said once: it is rejected, or it starts one tool. -/

section Calls

variable {registry : ToolRegistry} {waiting : Nat → Waiting} {name callTimeout : String} {args : Value}
  {budget : ToolBudget}

/-- A tool can be started: it is allowed, the arguments fit its schema, and there is budget for it. -/
structure ToolRegistry.Startable (registry : ToolRegistry) (name : String) (args : Value) (budget : ToolBudget)
    (tool : Tool) : Prop where
  allowed : registry.getAllowed name = some tool
  valid : validateArgs tool.schema args = .ok ()
  affordable : budget.callsMade < budget.maxCalls

/-- A call starts a tool that can be started, and pays for it; or there is none, and nothing is started or paid. -/
theorem ToolRegistry.call_cases (registry : ToolRegistry) (waiting : Nat → Waiting) (name callTimeout : String)
    (args : Value) (budget : ToolBudget) :
    (∃ tool, registry.Startable name args budget tool ∧
        registry.call waiting name args callTimeout budget =
          ⟨(waiting budget.callsMade).deliver name callTimeout (tool.execute args),
            { budget with callsMade := budget.callsMade + 1 }, [.execute tool args]⟩) ∨
      (∀ tool, ¬ registry.Startable name args budget tool) ∧
        (registry.call waiting name args callTimeout budget).budget = budget ∧
        (registry.call waiting name args callTimeout budget).started = [] := by
  unfold call
  cases allowed : registry.getAllowed name with
  | none => exact .inr ⟨(fun tool other => nomatch allowed.symm.trans other.allowed), rfl, rfl⟩
  | some tool =>
    dsimp only
    cases valid : validateArgs tool.schema args with
    | error reason =>
      refine .inr ⟨fun other startable => ?_, rfl, rfl⟩
      cases allowed.symm.trans startable.allowed
      exact nomatch valid.symm.trans startable.valid
    | ok value =>
      by_cases exhausted : budget.maxCalls ≤ budget.callsMade
      · rw [ToolBudget.consume, if_pos exhausted]
        exact .inr ⟨fun other startable => Nat.not_lt.mpr exhausted startable.affordable, rfl, rfl⟩
      · rw [ToolBudget.consume, if_neg exhausted]
        exact .inl ⟨tool, ⟨allowed, valid, Nat.not_le.mp exhausted⟩, rfl⟩

end Calls

section Rounds

variable {fromStr : Reader} {registry : ToolRegistry} {waiting : Nat → Waiting} {config : TurnConfig}
  {around : Surroundings}

theorem executeTools_ids (calls : List AssembledToolCall) (executed : Executed) :
    (executeTools fromStr registry waiting config calls executed).2.results.map Prod.fst =
      executed.results.map Prod.fst ++ calls.map AssembledToolCall.id := by
  induction calls generalizing executed with
  | nil => rw [executeTools, map_nil, append_nil]
  | cons call calls ih =>
    rw [executeTools, ih, map_append, append_assoc]
    rfl

/-- An action that is allowed: only allowlisted tools are started, with arguments of their schema. -/
def TurnAction.Allowed (registry : ToolRegistry) : TurnAction → Prop
  | .complete _ => True
  | .execute tool args =>
    ∃ name, registry.allowlist name = true ∧ registry.tools name = some tool ∧
      validateArgs tool.schema args = .ok ()

def TurnAction.messages? : TurnAction → Option (List Message)
  | .complete messages => some messages
  | .execute .. => none

theorem ToolRegistry.Startable.isAllowed {name : String} {args : Value} {budget : ToolBudget} {tool : Tool}
    (startable : registry.Startable name args budget tool) : (TurnAction.execute tool args).Allowed registry := by
  have allowed := startable.allowed
  rw [ToolRegistry.getAllowed] at allowed
  split_ifs at allowed with listed
  exact ⟨name, listed, allowed, startable.valid⟩

/-- What the tools of one answer have started and cost. -/
structure Dispatched (registry : ToolRegistry) (before after : ToolBudget) (log : List TurnAction) : Prop where
  limit : after.maxCalls = before.maxCalls
  paid : after.callsMade = before.callsMade + log.length
  within : before.callsMade ≤ before.maxCalls → after.callsMade ≤ after.maxCalls
  allowed : ∀ action ∈ log, action.Allowed registry ∧ action.messages? = none

theorem ToolRegistry.dispatched_call (name callTimeout : String) (args : Value) (budget : ToolBudget) :
    Dispatched registry budget (registry.call waiting name args callTimeout budget).budget
      (registry.call waiting name args callTimeout budget).started := by
  rcases registry.call_cases waiting name callTimeout args budget with
    ⟨tool, startable, called⟩ | ⟨-, unpaid, none⟩
  · rw [called]
    refine ⟨rfl, rfl, fun _ => startable.affordable, fun action member => ?_⟩
    rw [mem_singleton.mp member]
    exact ⟨startable.isAllowed, rfl⟩
  · rw [unpaid, none]
    exact ⟨rfl, rfl, id, fun _ member => nomatch member⟩

theorem Dispatched.trans {before between after : ToolBudget} {log later : List TurnAction}
    (first : Dispatched registry before between log) (second : Dispatched registry between after later) :
    Dispatched registry before after (log ++ later) where
  limit := second.limit.trans first.limit
  paid := by rw [second.paid, first.paid, length_append, Nat.add_assoc]
  within sound := second.within (first.within sound)
  allowed := forall_mem_append.mpr ⟨first.allowed, second.allowed⟩

theorem dispatched_executeTools (calls : List AssembledToolCall) (executed : Executed) :
    Dispatched registry executed.budget
      (executeTools fromStr registry waiting config calls executed).2.budget
      (executeTools fromStr registry waiting config calls executed).1 := by
  fun_induction executeTools fromStr registry waiting config calls executed with
  | case1 executed => exact ⟨rfl, rfl, id, fun _ member => nomatch member⟩
  | case2 call calls executed args called result later ih =>
    exact (registry.dispatched_call call.name config.callTimeout args executed.budget).trans ih

theorem dispatched_execute (state : TurnState) (agg : AggregatedOutput) :
    Dispatched registry state.budget (state.execute fromStr registry config around agg).2.budget
      (state.execute fromStr registry config around agg).1 :=
  dispatched_executeTools _ ⟨[], (state.record agg).transcript, (state.record agg).budget⟩

/-- One induction for all that holds of a turn. It ends before the provider is asked, or with its error, or with an
answer that requests nothing; or the tools of an answer are executed and the turn goes on. -/
theorem turnLoop_induction {motive : Nat → TurnState → List TurnAction → TurnResult → Prop}
    (early : ∀ left state returned,
      (∀ outcome, returned = .ok outcome → outcome.transcript = state.transcript) →
      motive left state [] (returned, state.messages))
    (failed : ∀ left state error,
      motive (left + 1) state [.complete state.messages] (.error error, state.messages))
    (last : ∀ left state agg outcome messages,
      aggregateSync (around.cancelledWithin state.iterations) (around.provider state.iterations state.messages) =
        .ok agg →
      requestedCalls agg = [] → outcome.transcript = (state.record agg).transcript →
      messages = state.messages ∨ messages = state.messages ++ [⟨.assistant, [.text agg.text]⟩] →
      motive (left + 1) state [.complete state.messages] (.ok outcome, messages))
    (round : ∀ left state agg log result,
      aggregateSync (around.cancelledWithin state.iterations) (around.provider state.iterations state.messages) =
        .ok agg →
      requestedCalls agg ≠ [] →
      motive left (state.afterTools fromStr registry config around agg) log result →
      motive (left + 1) state
        (.complete state.messages :: ((state.execute fromStr registry config around agg).1 ++ log)) result)
    (left : Nat) (state : TurnState) :
    motive left state (turnLoop fromStr registry config around left state).1
      (turnLoop fromStr registry config around left state).2 := by
  induction left generalizing state with
  | zero =>
    unfold turnLoop
    split_ifs
    · exact early _ _ _ fun outcome same => by cases same; rfl
    · exact early _ _ _ fun outcome same => by cases same; rfl
    · exact early _ _ _ fun outcome same => by cases same
  | succ left ih =>
    unfold turnLoop
    split_ifs
    · exact early _ _ _ fun outcome same => by cases same; rfl
    · exact early _ _ _ fun outcome same => by cases same; rfl
    · cases aggregated : aggregateSync (around.cancelledWithin state.iterations)
        (around.provider state.iterations state.messages) with
      | error error => exact failed left state error
      | ok agg =>
        dsimp only
        by_cases interrupted : agg.cancelled = true
        · rw [if_pos interrupted]
          have none : requestedCalls agg = [] := by rw [requestedCalls, if_pos interrupted]
          exact last left state agg _ _ aggregated none rfl (.inl rfl)
        · rw [if_neg interrupted]
          by_cases final : requestedCalls agg = []
          · rw [if_pos final]
            refine last left state agg _ _ aggregated final rfl ?_
            rw [TurnState.answered]
            split_ifs
            · exact .inl rfl
            · exact .inr rfl
          · rw [if_neg final]
            exact round left state agg _ _ aggregated final (ih _)

/-! ### Exchanges -/

def ContentPart.requestId? : ContentPart → Option String
  | .toolCallRequest id _ _ => some id
  | _ => none

def ContentPart.resultId? : ContentPart → Option String
  | .toolCallResult callId _ _ => some callId
  | _ => none

def Message.requestIds (message : Message) : List String :=
  message.parts.filterMap ContentPart.requestId?

def Message.resultIds (message : Message) : List String :=
  message.parts.filterMap ContentPart.resultId?

/-- A message with requests and the message with their results: one result for each request, in the same order. -/
structure Exchange (request reply : Message) : Prop where
  assistant : request.role = .assistant
  tool : reply.role = .tool
  unmixed : request.resultIds = [] ∧ ∀ part ∈ reply.parts, part.resultId?.isSome = true
  answered : reply.resultIds = request.requestIds
  distinct : request.requestIds.Nodup

/-- What a turn appends: exchanges, and perhaps a final text of the assistant. -/
inductive Exchanges : List Message → Prop where
  | nil : Exchanges []
  | final (text : String) : Exchanges [⟨.assistant, [.text text]⟩]
  | exchange {request reply : Message} {later : List Message} (pair : Exchange request reply)
      (rest : Exchanges later) : Exchanges (request :: reply :: later)

variable {agg : AggregatedOutput}

theorem stopped_of_requested (requested : requestedCalls agg ≠ []) :
    agg.cancelled = false ∧ agg.stopReason = .toolCall := by
  unfold requestedCalls at requested
  split_ifs at requested with cancelled stopped
  · exact absurd rfl requested
  · exact ⟨Bool.eq_false_of_not_eq_true cancelled, stopped⟩
  · exact absurd rfl requested

theorem requestedCalls_eq (requested : requestedCalls agg ≠ []) : requestedCalls agg = agg.toolCalls := by
  obtain ⟨running, stopped⟩ := stopped_of_requested requested
  rw [requestedCalls, running, if_neg Bool.false_ne_true, if_pos stopped]

def assistantMessage (fromStr : Reader) (agg : AggregatedOutput) : Message where
  role := .assistant
  parts := (if agg.text = "" then [] else [.text agg.text]) ++
    agg.toolCalls.map fun call =>
      .toolCallRequest call.id call.name (parseArguments fromStr call.argumentsJson)

def toolMessage (results : List (String × Value × Option String)) : Message where
  role := .tool
  parts := results.map fun (callId, output, error) => .toolCallResult callId output error

theorem appendAssistantMessage_eq (messages : List Message) (some : agg.toolCalls ≠ []) :
    appendAssistantMessage fromStr messages agg = messages ++ [assistantMessage fromStr agg] := by
  unfold appendAssistantMessage
  rw [if_neg]
  · rfl
  · intro empty
    exact some (map_eq_nil_iff.mp (append_eq_nil_iff.mp empty).2)

theorem appendToolResults_eq (messages : List Message) {results : List (String × Value × Option String)}
    (some : results ≠ []) : appendToolResults messages results = messages ++ [toolMessage results] := by
  rw [appendToolResults, if_neg some]
  rfl

theorem requestIds_assistantMessage (agg : AggregatedOutput) :
    (assistantMessage fromStr agg).requestIds = agg.toolCalls.map AssembledToolCall.id := by
  rw [Message.requestIds, assistantMessage, filterMap_append, filterMap_map]
  split_ifs <;> exact congrFun filterMap_eq_map' _

theorem resultIds_assistantMessage (agg : AggregatedOutput) : (assistantMessage fromStr agg).resultIds = [] := by
  rw [Message.resultIds, assistantMessage, filterMap_append, filterMap_map]
  split_ifs <;> exact filterMap_eq_nil_iff.mpr fun _ _ => rfl

theorem resultIds_toolMessage (results : List (String × Value × Option String)) :
    (toolMessage results).resultIds = results.map Prod.fst := by
  rw [Message.resultIds, toolMessage, filterMap_map]
  exact congrFun filterMap_eq_map' _

def toolResults (fromStr : Reader) (registry : ToolRegistry) (config : TurnConfig) (around : Surroundings)
    (state : TurnState) (agg : AggregatedOutput) : List (String × Value × Option String) :=
  (state.execute fromStr registry config around agg).2.results

theorem toolResults_ids (state : TurnState) (agg : AggregatedOutput) :
    (toolResults fromStr registry config around state agg).map Prod.fst =
      (requestedCalls agg).map AssembledToolCall.id :=
  executeTools_ids _ _

theorem messages_afterTools (state : TurnState) (requested : requestedCalls agg ≠ []) :
    (state.afterTools fromStr registry config around agg).messages =
      state.messages ++
        [assistantMessage fromStr agg, toolMessage (toolResults fromStr registry config around state agg)] := by
  have some : agg.toolCalls ≠ [] := requestedCalls_eq requested ▸ requested
  have results : toolResults fromStr registry config around state agg ≠ [] := by
    intro empty
    have ids : (toolResults fromStr registry config around state agg).map Prod.fst = _ := toolResults_ids state agg
    rw [empty] at ids
    exact requested (map_eq_nil_iff.mp ids.symm)
  rw [← singleton_append, ← append_assoc, ← appendAssistantMessage_eq _ some,
    ← appendToolResults_eq _ results]
  rfl

theorem exchange_afterTools (state : TurnState)
    (aggregated : aggregateSync (around.cancelledWithin state.iterations)
      (around.provider state.iterations state.messages) = .ok agg)
    (requested : requestedCalls agg ≠ []) :
    Exchange (assistantMessage fromStr agg) (toolMessage (toolResults fromStr registry config around state agg)) where
  assistant := rfl
  tool := rfl
  unmixed := by
    refine ⟨resultIds_assistantMessage agg, fun part member => ?_⟩
    obtain ⟨result, -, rfl⟩ := mem_map.mp member
    rfl
  answered := by
    rw [resultIds_toolMessage, toolResults_ids, requestIds_assistantMessage, requestedCalls_eq requested]
  distinct := by
    rw [requestIds_assistantMessage]
    exact nodup_aggregateSync aggregated

theorem turnLoop_exchanges (left : Nat) (state : TurnState) :
    ∃ appended, (turnLoop fromStr registry config around left state).2.2 = state.messages ++ appended ∧
      Exchanges appended := by
  refine turnLoop_induction
    (motive := fun _ state _ result => ∃ appended, result.2 = state.messages ++ appended ∧ Exchanges appended)
    ?early ?failed ?last ?round left state
  case early => exact fun _ state _ _ => ⟨[], (append_nil _).symm, .nil⟩
  case failed => exact fun _ state _ => ⟨[], (append_nil _).symm, .nil⟩
  case last =>
    intro _ state agg _ _ _ _ _ kept
    rcases kept with rfl | rfl
    · exact ⟨[], (append_nil _).symm, .nil⟩
    · exact ⟨_, rfl, .final agg.text⟩
  case round =>
    intro _ state agg _ result aggregated requested run
    obtain ⟨appended, same, exchanges⟩ := run
    rw [messages_afterTools state requested, append_assoc] at same
    exact ⟨_, same, .exchange (exchange_afterTools state aggregated requested) exchanges⟩

/-- Whatever the provider, the tools and the caller do, and however the turn ends, what it appends to the
conversation are exchanges. -/
theorem runTurn_exchanges (fromStr : Reader) (registry : ToolRegistry) (config : TurnConfig) (around : Surroundings)
    (messages : List Message) :
    ∃ appended, (runTurn fromStr registry config around messages).2 = messages ++ appended ∧ Exchanges appended :=
  turnLoop_exchanges config.maxIterations _

/-! ### Budgets and transcript -/

def asked (log : List TurnAction) : List (List Message) :=
  log.filterMap TurnAction.messages?

def started (log : List TurnAction) : List TurnAction :=
  log.filter (·.messages?.isNone)

/-- The answers of the provider to some requests, counted from an iteration on. -/
def Replies (around : Surroundings) : Nat → List (List Message) → List AggregatedOutput → Prop
  | _, [], [] => True
  | iteration, messages :: later, agg :: aggs =>
    aggregateSync (around.cancelledWithin iteration) (around.provider iteration messages) = .ok agg ∧
      Replies around (iteration + 1) later aggs
  | _, _, _ => False

inductive RecordedCalls : List AssembledToolCall → List TurnEvent → Prop where
  | nil : RecordedCalls [] []
  | call {call : AssembledToolCall} {calls : List AssembledToolCall} {events : List TurnEvent}
      (output : Value) (error : Option String) (rest : RecordedCalls calls events) :
      RecordedCalls (call :: calls)
        (.toolCall call.id call.name call.argumentsJson :: .toolResult call.id output error :: events)

/-- What a transcript tells of some answers. The calls of an answer are dispatched when it stopped for them and was
not cancelled, and any other answer is the last. -/
inductive Recorded : List AggregatedOutput → List TurnEvent → Prop where
  | nil : Recorded [] []
  | final {agg : AggregatedOutput} (last : agg.cancelled = true ∨ agg.stopReason ≠ .toolCall) :
      Recorded [agg] [.modelResponse agg.text agg.toolCalls agg.usage]
  | round {agg : AggregatedOutput} {aggs : List AggregatedOutput} {events later : List TurnEvent}
      (running : agg.cancelled = false) (stopped : agg.stopReason = .toolCall)
      (calls : RecordedCalls agg.toolCalls events) (rest : Recorded aggs later) :
      Recorded (agg :: aggs) (.modelResponse agg.text agg.toolCalls agg.usage :: (events ++ later))

theorem Recorded.last {agg : AggregatedOutput} (none : requestedCalls agg = []) :
    Recorded [agg] [.modelResponse agg.text agg.toolCalls agg.usage] := by
  unfold requestedCalls at none
  split_ifs at none with cancelled stopped
  · exact .final (.inl cancelled)
  · have calls : RecordedCalls agg.toolCalls [] := by
      rw [none]
      exact .nil
    exact .round (Bool.eq_false_of_not_eq_true cancelled) stopped calls .nil
  · exact .final (.inr stopped)

theorem executeTools_transcript (calls : List AssembledToolCall) (executed : Executed) :
    ∃ events, RecordedCalls calls events ∧
      (executeTools fromStr registry waiting config calls executed).2.transcript = executed.transcript ++ events := by
  fun_induction executeTools fromStr registry waiting config calls executed with
  | case1 executed => exact ⟨[], .nil, (append_nil _).symm⟩
  | case2 call calls executed args called result later ih =>
    obtain ⟨events, recorded, same⟩ := ih
    rw [append_assoc] at same
    exact ⟨_, .call _ _ recorded, same⟩

structure WithinBudgets (registry : ToolRegistry) (around : Surroundings) (left : Nat) (state : TurnState)
    (log : List TurnAction) (result : TurnResult) : Prop where
  iterations : (asked log).length ≤ left
  executions : state.budget.callsMade ≤ state.budget.maxCalls →
    state.budget.callsMade + (started log).length ≤ state.budget.maxCalls
  allowed : ∀ action ∈ log, action.Allowed registry
  transcript : ∀ outcome, result.1 = .ok outcome → ∃ aggs events,
    Replies around state.iterations (asked log) aggs ∧ Recorded aggs events ∧
      outcome.transcript = state.transcript ++ events

theorem asked_round (messages : List Message) {before after : ToolBudget} {log : List TurnAction}
    (dispatched : Dispatched registry before after log) (later : List TurnAction) :
    asked (.complete messages :: (log ++ later)) = messages :: asked later := by
  have none : log.filterMap TurnAction.messages? = [] :=
    filterMap_eq_nil_iff.mpr fun action member => (dispatched.allowed action member).2
  rw [asked, filterMap_cons, filterMap_append, none]
  rfl

theorem started_round (messages : List Message) {before after : ToolBudget} {log : List TurnAction}
    (dispatched : Dispatched registry before after log) (later : List TurnAction) :
    started (.complete messages :: (log ++ later)) = log ++ started later := by
  have all : log.filter (·.messages?.isNone) = log := by
    refine filter_eq_self.mpr fun action member => ?_
    rw [(dispatched.allowed action member).2]
    rfl
  rw [started, filter_cons_of_neg (by simp [TurnAction.messages?]), filter_append, all]
  rfl

theorem withinBudgets (left : Nat) (state : TurnState) :
    WithinBudgets registry around left state (turnLoop fromStr registry config around left state).1
      (turnLoop fromStr registry config around left state).2 := by
  refine turnLoop_induction (motive := WithinBudgets registry around) ?early ?failed ?last ?round left state
  case early =>
    intro left state returned transcript
    refine ⟨Nat.zero_le left, id, (fun _ member => nomatch member), fun outcome same => ?_⟩
    exact ⟨[], [], trivial, .nil, (transcript outcome same).trans (append_nil _).symm⟩
  case failed =>
    intro left state error
    refine ⟨Nat.succ_le_succ (Nat.zero_le left), id, ?_, fun outcome same => nomatch same⟩
    exact fun action member => mem_singleton.mp member ▸ trivial
  case last =>
    intro left state agg outcome messages aggregated none transcript _
    refine ⟨Nat.succ_le_succ (Nat.zero_le left), id, ?_, fun other same => ?_⟩
    · exact fun action member => mem_singleton.mp member ▸ trivial
    · cases same
      exact ⟨[agg], _, ⟨aggregated, trivial⟩, .last none, transcript⟩
  case round =>
    intro left state agg log result aggregated requested run
    have dispatched := @dispatched_execute fromStr registry config around state agg
    refine ⟨?_, fun sound => ?_, ?_, fun outcome same => ?_⟩
    · rw [asked_round _ dispatched]
      exact Nat.succ_le_succ run.iterations
    · have rest : _ + _ ≤ (state.execute fromStr registry config around agg).2.budget.maxCalls :=
        run.executions (dispatched.within sound)
      rw [started_round _ dispatched, length_append, ← Nat.add_assoc, ← dispatched.paid, ← dispatched.limit]
      exact rest
    · refine forall_mem_cons.mpr ⟨trivial, forall_mem_append.mpr ⟨?_, run.allowed⟩⟩
      exact fun action member => (dispatched.allowed action member).1
    · obtain ⟨aggs, events, replies, recorded, transcript⟩ := run.transcript outcome same
      obtain ⟨calls, recordedCalls, after⟩ : ∃ calls, RecordedCalls (requestedCalls agg) calls ∧
          (state.afterTools fromStr registry config around agg).transcript = (state.record agg).transcript ++ calls :=
        executeTools_transcript ..
      rw [requestedCalls_eq requested] at recordedCalls
      obtain ⟨running, stopped⟩ := stopped_of_requested requested
      refine ⟨agg :: aggs, _, ?_, .round running stopped recordedCalls recorded, ?_⟩
      · rw [asked_round _ dispatched]
        exact ⟨aggregated, replies⟩
      · rw [transcript, after]
        simp [TurnState.record]

/-- Whatever the provider, the tools and the caller do: the provider is asked at most `max_iterations` times, at most
`tool_budget` tools are started, all of them allowlisted and with arguments of their schema; and the transcript that
is returned tells of each answer, followed by its calls with their results when it stopped for them and was not
cancelled. -/
theorem runTurn_within_budgets (fromStr : Reader) (registry : ToolRegistry) (config : TurnConfig)
    (around : Surroundings) (messages : List Message) :
    ∃ log, runTurnLogged fromStr registry config around messages =
        (log, runTurn fromStr registry config around messages) ∧
      (asked log).length ≤ config.maxIterations ∧ (started log).length ≤ config.toolBudget ∧
      (∀ action ∈ log, action.Allowed registry) ∧
      ∀ outcome, (runTurn fromStr registry config around messages).1 = .ok outcome →
        ∃ aggs, Replies around 0 (asked log) aggs ∧ Recorded aggs outcome.transcript := by
  have within : WithinBudgets registry around config.maxIterations _
      (runTurnLogged fromStr registry config around messages).1 _ := withinBudgets ..
  refine ⟨_, rfl, within.iterations, ?_, within.allowed, fun outcome same => ?_⟩
  · have started := within.executions (Nat.zero_le _)
    rw [ToolBudget.new, Nat.zero_add] at started
    exact started
  · obtain ⟨aggs, events, replies, recorded, transcript⟩ := within.transcript outcome same
    exact ⟨aggs, replies, transcript ▸ recorded⟩

/-- An answer with a call that ends the turn: the transcript lists the call, but no `ToolCall` and no `ToolResult`. -/
theorem endOfTurn_call_unanswered :
    (runTurn Foundation.Serde.readPlain ⟨fun _ => none, fun _ => false⟩ ⟨8, "10s", 4⟩
        { provider := fun _ _ =>
            [.ok (.toolCallDelta "c1" (some "fs.read") "\x7b\x7d"), .ok (.done .endOfTurn)]
          cancelled := fun _ => false
          cancelledWithin := fun _ _ => false
          expired := fun _ => false
          waiting := fun _ => .answered } []).1.toOption.map TurnOutcome.transcript =
      some [.modelResponse "" [⟨"c1", "fs.read", "\x7b\x7d"⟩] none] :=
  rfl

end Rounds

open Foundation.Serde (Value Writer)

/-! ### The turns that are kept -/

section Keeping

variable (writer : Writer)

def totalTokens (messages : List Message) : Nat :=
  (messages.map fun message => (estimateTokens writer message).toNat).sum

/-- Messages that fit a budget besides others. The largest budget there is does not limit anything, since the sum
against which it is checked saturates. -/
def FitsBudget (budget : UInt32) (used : Nat) (messages : List Message) : Prop :=
  budget = 0xFFFFFFFF ∨ used + totalTokens writer messages ≤ budget.toNat

/-- The newest turns of a history, when there are not too many and they do not take too many tokens. -/
def Fits (history : List Message) (policy : ContextPolicy) (newest : List Message) : Prop :=
  newest.length ≤ policy.recentMessages.toNat ∧
    FitsBudget writer (tokenBudget writer history policy) 0 newest

variable {writer}

theorem totalTokens_cons (message : Message) (messages : List Message) :
    totalTokens writer (message :: messages) = (estimateTokens writer message).toNat + totalTokens writer messages := by
  simp only [totalTokens, map_cons, sum_cons]

theorem saturatingAdd_le_iff {budget used tokens : UInt32} :
    ¬ budget < saturatingAdd used tokens ↔ budget = 0xFFFFFFFF ∨ used.toNat + tokens.toNat ≤ budget.toNat := by
  have bound : budget.toNat < 2 ^ 32 := budget.toNat_lt
  have largest : budget = 0xFFFFFFFF ↔ budget.toNat = 2 ^ 32 - 1 := UInt32.toNat_inj.symm
  rw [largest, UInt32.lt_iff_toNat_lt, saturatingAdd]
  split_ifs with small
  · rw [UInt32.toNat_add, Nat.mod_eq_of_lt small]
    omega
  · have top : (0xFFFFFFFF : UInt32).toNat = 2 ^ 32 - 1 := rfl
    omega

theorem prefix_keepRecent_iff {budget used : UInt32} (sound : budget = 0xFFFFFFFF ∨ used.toNat ≤ budget.toNat)
    {front messages : List Message} (isFront : front <+: messages) :
    front <+: keepRecent writer budget used messages ↔ FitsBudget writer budget used.toNat front := by
  induction messages generalizing used front with
  | nil =>
    have empty : front = [] := List.prefix_nil.mp isFront
    subst empty
    simp only [keepRecent, List.prefix_rfl, true_iff]
    exact sound.imp_right fun fits => by simpa [totalTokens] using fits
  | cons message messages ih =>
    cases front with
    | nil =>
      simp only [List.nil_prefix, true_iff]
      exact sound.imp_right fun fits => by simpa [totalTokens] using fits
    | cons first front =>
      obtain ⟨rfl, rest⟩ := List.cons_prefix_cons.mp isFront
      simp only [keepRecent]
      by_cases exceeds : budget < saturatingAdd used (estimateTokens writer first)
      · have tooMuch := mt saturatingAdd_le_iff.mpr (not_not.mpr exceeds)
        simp only [if_pos exceeds, List.prefix_nil, reduceCtorEq, false_iff, FitsBudget, totalTokens_cons]
        grind
      · -- The sum is exact, unless the budget is the largest.
        have fits := saturatingAdd_le_iff.mp exceeds
        have sum : budget = 0xFFFFFFFF ∨
            (used + estimateTokens writer first).toNat = used.toNat + (estimateTokens writer first).toNat := by
          refine fits.imp_right fun below => ?_
          rw [UInt32.toNat_add, Nat.mod_eq_of_lt (Nat.lt_of_le_of_lt below budget.toNat_lt)]
        have soundNext : budget = 0xFFFFFFFF ∨ (used + estimateTokens writer first).toNat ≤ budget.toNat := by
          grind
        simp only [if_neg exceeds, List.cons_prefix_cons, true_and, ih soundNext rest, FitsBudget,
          totalTokens_cons]
        grind

theorem totalTokens_reverse (messages : List Message) :
    totalTokens writer messages.reverse = totalTokens writer messages := by
  simp only [totalTokens, map_reverse, sum_reverse]

def keptTurns (writer : Writer) (history : List Message) (policy : ContextPolicy) : List Message :=
  (keepRecent writer (tokenBudget writer history policy) 0
    ((turnMsgs history).drop ((turnMsgs history).length - policy.recentMessages.toNat)).reverse).reverse

theorem keepRecent_front (budget used : UInt32) (messages : List Message) :
    keepRecent writer budget used messages <+: messages := by
  induction messages generalizing used with
  | nil => exact List.prefix_rfl
  | cons message messages ih =>
    simp only [keepRecent]
    split_ifs
    · exact List.nil_prefix
    · exact List.cons_prefix_cons.mpr ⟨rfl, ih _⟩

theorem keptTurns_suffix (history : List Message) (policy : ContextPolicy) :
    keptTurns writer history policy <:+ turnMsgs history := by
  have candidates : keptTurns writer history policy <:+
      (turnMsgs history).drop ((turnMsgs history).length - policy.recentMessages.toNat) := by
    rw [keptTurns, ← List.reverse_prefix, reverse_reverse]
    exact keepRecent_front ..
  exact candidates.trans (drop_suffix _ _)

theorem suffix_keptTurns_iff {history : List Message} {policy : ContextPolicy} {newest : List Message}
    (isNewest : newest <:+ turnMsgs history) :
    newest <:+ keptTurns writer history policy ↔ Fits writer history policy newest := by
  have front : newest.reverse <+: (turnMsgs history).reverse := List.reverse_prefix.mpr isNewest
  have recent : newest.reverse <+:
        ((turnMsgs history).drop ((turnMsgs history).length - policy.recentMessages.toNat)).reverse ↔
      newest.length ≤ policy.recentMessages.toNat := by
    rw [← take_reverse, List.prefix_take_iff, length_reverse]
    exact and_iff_right front
  have whole : newest <:+ keptTurns writer history policy ↔ newest.reverse <+:
      keepRecent writer (tokenBudget writer history policy) 0
        ((turnMsgs history).drop ((turnMsgs history).length - policy.recentMessages.toNat)).reverse := by
    rw [keptTurns, ← List.reverse_prefix, reverse_reverse]
  rw [whole, Fits, ← recent]
  constructor
  · intro kept
    have among := kept.trans (keepRecent_front ..)
    have fits := (prefix_keepRecent_iff (.inr (Nat.zero_le _)) among).mp kept
    rw [FitsBudget, totalTokens_reverse] at fits
    exact ⟨among, fits⟩
  · rintro ⟨among, fits⟩
    refine (prefix_keepRecent_iff (.inr (Nat.zero_le _)) among).mpr ?_
    rw [FitsBudget, totalTokens_reverse]
    exact fits

end Keeping

def Intact (messages : List Message) : Prop :=
  ∀ before message after, messages = before ++ message :: after →
    ∀ id ∈ message.resultIds, ∃ earlier ∈ before, id ∈ earlier.requestIds

theorem intact_iff_get (messages : List Message) :
    Intact messages ↔ ∀ index : Fin messages.length, ∀ id ∈ (messages.get index).resultIds,
      ∃ earlier ∈ messages.take index, id ∈ earlier.requestIds := by
  constructor
  · intro intact index
    have split : messages = messages.take index ++ messages.get index :: messages.drop (index + 1) := by simp
    exact intact _ _ _ split
  · intro intact before message after split
    subst split
    have here := intact ⟨before.length, by simp⟩
    simpa using here

instance decidableIntact : DecidablePred Intact :=
  fun messages => decidable_of_iff _ (intact_iff_get messages).symm

/-- When the limits separate no result from its request: the request of a result within the limits is in a system
message, or in a turn before it that is within the limits as well. Results in system messages have theirs in system
messages. -/
structure KeepsExchanges (writer : Writer) (history : List Message) (policy : ContextPolicy) : Prop where
  system : Intact (systemMsgs history)
  turns : ∀ before message after, turnMsgs history = before ++ message :: after →
    Fits writer history policy (message :: after) → ∀ id ∈ message.resultIds,
      (∃ earlier ∈ systemMsgs history, id ∈ earlier.requestIds) ∨
        ∃ older earlier between, before = older ++ earlier :: between ∧ id ∈ earlier.requestIds ∧
          Fits writer history policy (earlier :: (between ++ message :: after))

theorem intact_append_iff (messages later : List Message) :
    Intact (messages ++ later) ↔ Intact messages ∧
      ∀ before message after, later = before ++ message :: after →
        ∀ id ∈ message.resultIds, ∃ earlier ∈ messages ++ before, id ∈ earlier.requestIds := by
  constructor
  · intro intact
    constructor
    · intro before message after split
      subst split
      exact intact before message (after ++ later) (by simp)
    · intro before message after split
      subst split
      exact intact (messages ++ before) message after (by simp)
  · rintro ⟨here, there⟩ before message after split
    rcases append_eq_append_iff.mp split with ⟨more, rfl, splitLater⟩ | ⟨more, splitHere, splitLater⟩
    · exact there more message after splitLater
    · cases more with
      | nil =>
        subst splitHere
        simpa using there [] message after splitLater.symm
      | cons first more =>
        obtain ⟨rfl, rfl⟩ := List.cons.inj splitLater
        exact here before message more splitHere

/-- An assembled context is intact exactly when the limits separate no result from its request. -/
theorem assembleContext_intact_iff (writer : Writer) (history : List Message) (policy : ContextPolicy) :
    Intact (assembleContext writer history policy) ↔ KeepsExchanges writer history policy := by
  have assembled : assembleContext writer history policy = systemMsgs history ++ keptTurns writer history policy := rfl
  obtain ⟨dropped, isSuffix⟩ : keptTurns writer history policy <:+ turnMsgs history := keptTurns_suffix history policy
  have fits {newest : List Message} (isNewest : newest <:+ turnMsgs history) :
      newest <:+ keptTurns writer history policy ↔ Fits writer history policy newest := suffix_keptTurns_iff isNewest
  rw [assembled, intact_append_iff]
  constructor
  · rintro ⟨system, turns⟩
    refine ⟨system, fun before message after split within id isResult => ?_⟩
    obtain ⟨newer, kept⟩ := (fits ⟨before, split.symm⟩).mpr within
    obtain ⟨earlier, among, isRequest⟩ := turns newer message after kept.symm id isResult
    rcases mem_append.mp among with inSystem | inTurns
    · exact .inl ⟨earlier, inSystem, isRequest⟩
    · obtain ⟨older, between, rfl⟩ := append_of_mem inTurns
      have whole : turnMsgs history = (dropped ++ older) ++ earlier :: (between ++ message :: after) := by
        rw [← isSuffix, ← kept]
        simp
      refine .inr ⟨dropped ++ older, earlier, between, ?_, isRequest, ?_⟩
      · have same : before ++ message :: after = (dropped ++ older ++ earlier :: between) ++ message :: after := by
          rw [← split, whole]
          simp
        exact append_cancel_right same
      · refine (fits ⟨_, whole.symm⟩).mp ⟨older, ?_⟩
        rw [← kept]
        simp
  · rintro ⟨system, turns⟩
    refine ⟨system, fun newer message after kept id isResult => ?_⟩
    have split : turnMsgs history = (dropped ++ newer) ++ message :: after := by
      rw [← isSuffix, kept, append_assoc]
    have within := (fits ⟨_, split.symm⟩).mp ⟨newer, kept.symm⟩
    rcases turns _ message after split within id isResult with
      ⟨earlier, inSystem, isRequest⟩ | ⟨older, earlier, between, before, isRequest, withinToo⟩
    · exact ⟨earlier, mem_append_left _ inSystem, isRequest⟩
    · have position : earlier :: (between ++ message :: after) <:+ turnMsgs history := by
        refine ⟨older, ?_⟩
        rw [split, before]
        simp
      have inKept := (fits position).mpr withinToo
      rw [kept, ← cons_append, suffix_append_self_iff] at inKept
      exact ⟨earlier, mem_append_right _ (inKept.subset (.head _)), isRequest⟩

def toolTurn : List Message :=
  [⟨.user, [.text "What time is it?"]⟩, ⟨.assistant, [.toolCallRequest "c1" "time" (.object [])]⟩,
    ⟨.tool, [.toolCallResult "c1" (.string "12:00") none]⟩, ⟨.assistant, [.text "It is noon."]⟩]

/-- The limit of two messages cuts between the request and its result. -/
theorem toolTurn_not_intact :
    Intact toolTurn ∧ ¬ Intact (assembleContext Foundation.Serde.plainWriter toolTurn ⟨3800, 2⟩) := by
  decide +kernel

section Budget

variable {writer : Writer}

theorem toNat_foldl_estimate (messages : List Message) (used : UInt32) :
    (messages.foldl (fun total msg => total + estimateTokens writer msg) used).toNat =
      (used.toNat + totalTokens writer messages) % 2 ^ 32 := by
  induction messages generalizing used with
  | nil => simp [totalTokens, Nat.mod_eq_of_lt used.toNat_lt]
  | cons message messages ih =>
    rw [foldl_cons, ih, totalTokens_cons, UInt32.toNat_add]
    omega

theorem toNat_estimateTotal (messages : List Message) :
    (estimateTotal writer messages).toNat = totalTokens writer messages % 2 ^ 32 := by
  rw [estimateTotal, toNat_foldl_estimate]
  simp

theorem totalTokens_append (first second : List Message) :
    totalTokens writer (first ++ second) = totalTokens writer first + totalTokens writer second := by
  simp [totalTokens]

theorem toNat_saturatingSub (minuend subtrahend : UInt32) :
    (saturatingSub minuend subtrahend).toNat = minuend.toNat - subtrahend.toNat := by
  rw [saturatingSub]
  split_ifs with within
  · exact UInt32.toNat_sub_of_le _ _ within
  · rw [UInt32.le_iff_toNat_le] at within
    have zero : (0 : UInt32).toNat = 0 := rfl
    omega

/-- An assembled context stays within the limit exactly when its system messages alone do. -/
theorem assembleContext_within_iff (writer : Writer) (history : List Message) (policy : ContextPolicy) :
    estimateTotal writer (assembleContext writer history policy) ≤ policy.maxTokens ↔
      estimateTotal writer (systemMsgs history) ≤ policy.maxTokens := by
  have assembled : assembleContext writer history policy = systemMsgs history ++ keptTurns writer history policy := rfl
  obtain ⟨-, fits⟩ := (suffix_keptTurns_iff (keptTurns_suffix history policy)).mp (suffix_refl _)
  have budget : (tokenBudget writer history policy).toNat = _ := toNat_saturatingSub _ _
  have total : (estimateTotal writer (systemMsgs history)).toNat = _ := toNat_estimateTotal _
  rw [FitsBudget, ← UInt32.toNat_inj, budget] at fits
  rw [UInt32.le_iff_toNat_le, UInt32.le_iff_toNat_le, assembled, toNat_estimateTotal, totalTokens_append]
  have top : (0xFFFFFFFF : UInt32).toNat = 2 ^ 32 - 1 := rfl
  omega

/-- A system prompt that takes more than the limit is kept all the same. -/
theorem longPrompt_exceeds :
    ¬ estimateTotal Foundation.Serde.plainWriter
        (assembleContext Foundation.Serde.plainWriter [⟨.system, [.text "You are a helpful assistant."]⟩] ⟨10, 40⟩) ≤
      (⟨10, 40⟩ : ContextPolicy).maxTokens := by
  decide +kernel

/-- The newest messages, when they are few enough and take no more tokens than the system messages leave. -/
def WithinLimits (writer : Writer) (history : List Message) (policy : ContextPolicy) (newest : List Message) : Prop :=
  newest.length ≤ policy.recentMessages.toNat ∧
    totalTokens writer newest ≤ policy.maxTokens.toNat - totalTokens writer (systemMsgs history)

theorem totalTokens_filter (messages : List Message) :
    totalTokens writer (systemMsgs messages) + totalTokens writer (turnMsgs messages) =
      totalTokens writer messages := by
  induction messages with
  | nil => rfl
  | cons message messages ih =>
    by_cases system : message.role = .system
    · simp_all [systemMsgs, turnMsgs, totalTokens_cons]
      omega
    · simp_all [systemMsgs, turnMsgs, totalTokens_cons]
      omega

theorem fits_iff_withinLimits {history newest : List Message} {policy : ContextPolicy}
    (small : totalTokens writer history < 2 ^ 32) (isNewest : newest <:+ turnMsgs history) :
    Fits writer history policy newest ↔ WithinLimits writer history policy newest := by
  obtain ⟨older, isTurns⟩ := isNewest
  have sum : _ = totalTokens writer history := totalTokens_filter history
  rw [← isTurns, totalTokens_append] at sum
  have budget : (tokenBudget writer history policy).toNat = _ := toNat_saturatingSub _ _
  rw [toNat_estimateTotal, Nat.mod_eq_of_lt (by omega)] at budget
  rw [Fits, WithinLimits, FitsBudget, ← UInt32.toNat_inj, budget]
  have top : (0xFFFFFFFF : UInt32).toNat = 2 ^ 32 - 1 := rfl
  omega

/-- The context is all system messages and then the longest suffix of the other messages within the limits. -/
theorem assembleContext_longest (writer : Writer) (history : List Message) (policy : ContextPolicy)
    (small : totalTokens writer history < 2 ^ 32) :
    ∃ kept, assembleContext writer history policy = systemMsgs history ++ kept ∧ kept <:+ turnMsgs history ∧
      WithinLimits writer history policy kept ∧
      ∀ newest, newest <:+ turnMsgs history → WithinLimits writer history policy newest →
        newest.length ≤ kept.length := by
  have isSuffix : keptTurns writer history policy <:+ turnMsgs history := keptTurns_suffix history policy
  refine ⟨keptTurns writer history policy, rfl, isSuffix, ?_, fun newest isNewest within => ?_⟩
  · exact (fits_iff_withinLimits small isSuffix).mp ((suffix_keptTurns_iff isSuffix).mp (suffix_refl _))
  · have fits := (fits_iff_withinLimits small isNewest).mpr within
    exact ((suffix_keptTurns_iff isNewest).mpr fits).length_le

theorem toolTurn_longest :
    totalTokens Foundation.Serde.plainWriter toolTurn < 2 ^ 32 ∧
      ∃ kept, assembleContext Foundation.Serde.plainWriter toolTurn ⟨3800, 2⟩ = systemMsgs toolTurn ++ kept ∧
        kept <:+ turnMsgs toolTurn ∧ WithinLimits Foundation.Serde.plainWriter toolTurn ⟨3800, 2⟩ kept ∧
        ∀ newest, newest <:+ turnMsgs toolTurn →
          WithinLimits Foundation.Serde.plainWriter toolTurn ⟨3800, 2⟩ newest → newest.length ≤ kept.length :=
  have small : totalTokens Foundation.Serde.plainWriter toolTurn < 2 ^ 32 := by decide +kernel
  ⟨small, assembleContext_longest _ toolTurn ⟨3800, 2⟩ small⟩

end Budget

end NuraOS.Agent
