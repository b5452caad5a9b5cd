/-
Purpose: Which paths of `fs.read` lie under `/data`, and when the secrets file can reach the model.
-/
import NuraOS.Proofs.TurnRounds

namespace NuraOS.Tools

open Foundation
open Foundation.RustPath (Component component components segments hasRoot lexical)
open List

/-- The path is `/data` or lies below it when it is read by its text alone. -/
def UnderData (path : String) : Prop :=
  hasRoot path = true ∧ ["data"] <+: lexical path

theorem startsWith_iff {text lead : String} :
    startsWith text lead = true ↔ ∃ tail, text = lead ++ tail :=
  RustText.startsWith_iff

theorem checkPath_eq_ok {raw path : String} :
    checkPath raw defaultPrefixes = .ok path ↔
      path = raw ∧ ['.', '.'] ∉ segments raw ∧ ∃ tail, raw = "/data" ++ tail := by
  have begins : defaultPrefixes.any (startsWith raw) = true ↔ ∃ tail, raw = "/data" ++ tail := by
    simp only [defaultPrefixes, any_cons, any_nil, Bool.or_false, Bool.or_eq_true,
      startsWith_iff]
    constructor
    · rintro (⟨tail, rfl⟩ | begins)
      · exact ⟨"/" ++ tail, by rw [← String.append_assoc]; rfl⟩
      · exact begins
    · exact Or.inr
  rw [← begins, ← RustPath.parentDir_mem_components]
  unfold checkPath
  split_ifs with climbs inside
  · simp [climbs]
  · simp [climbs, inside, eq_comm]
  · simp [inside]

theorem splitOn_append_of_not_mem {separator : Char} {front : List Char} (free : separator ∉ front)
    {tail first : List Char} {rest : List (List Char)} (split : tail.splitOn separator = first :: rest) :
    (front ++ tail).splitOn separator = (front ++ first) :: rest := by
  induction front with
  | nil => exact split
  | cons c front ih =>
    have other : ¬ c = separator := fun same => free (same ▸ mem_cons_self)
    rw [cons_append, splitOn_cons_eq_if_modifyHead, if_neg (by simpa using other),
      ih fun member => free (mem_cons_of_mem _ member)]
    rfl

theorem segments_head_eq_nil {tail : String} {first : List Char} {rest : List (List Char)}
    (split : segments tail = first :: rest) : first = [] ↔ tail = "" ∨ hasRoot tail = true := by
  rw [← String.toList_eq_nil_iff, hasRoot]
  unfold segments at split
  cases chars : tail.toList with
  | nil =>
    rw [chars, splitOn_nil] at split
    cases split
    simp
  | cons c more =>
    obtain ⟨next, others, splitMore⟩ := exists_cons_of_ne_nil (splitOn_ne_nil '/' more)
    rw [chars, splitOn_cons_eq_if_modifyHead, splitMore] at split
    by_cases slash : c = '/'
    · rw [if_pos (by simpa using slash)] at split
      cases split
      simp [slash]
    · rw [if_neg (by simpa using slash)] at split
      cases split
      simp [slash]

/-- A path with the letters of `/data` in front that does not climb lies under `/data` when its first name
ends there. -/
theorem underData_append {tail : String} (level : ['.', '.'] ∉ segments ("/data" ++ tail)) :
    UnderData ("/data" ++ tail) ↔ tail = "" ∨ hasRoot tail = true := by
  obtain ⟨first, rest, split⟩ := exists_cons_of_ne_nil (splitOn_ne_nil '/' tail.toList)
  let name := ['d', 'a', 't', 'a'] ++ first
  have pieces : segments ("/data" ++ tail) = [] :: name :: rest := by
    have chars : ("/data" ++ tail).toList = '/' :: (['d', 'a', 't', 'a'] ++ tail.toList) :=
      String.toList_append
    have free : '/' ∉ ['d', 'a', 't', 'a'] := by decide
    rw [segments, chars, splitOn_cons_eq_if_modifyHead, if_pos (by decide),
      splitOn_append_of_not_mem free split]
  have rooted : hasRoot ("/data" ++ tail) = true := by
    rw [hasRoot, String.toList_append]
    rfl
  have named : component name = some (.normal (String.ofList name)) := by
    simp [component, name]
  have names : ["data"] <+: lexical ("/data" ++ tail) ↔ String.ofList name = "data" := by
    have below : [String.ofList name] <+: lexical ("/data" ++ tail) := by
      have read : components ("/data" ++ tail) =
          .rootDir :: .normal (String.ofList name) :: rest.filterMap component := by
        rw [components, if_pos rooted, pieces, filterMap_cons_none rfl,
          filterMap_cons_some named]
      rw [lexical, read]
      apply RustPath.prefix_foldl_enter
      intro found member
      refine RustPath.normal_of_mem_filterMap (fun climbs => level ?_) member
      rw [pieces]
      exact mem_cons_of_mem _ (mem_cons_of_mem _ climbs)
    constructor
    · intro data
      have same := List.prefix_of_prefix_length_le data below (Nat.le_refl _)
      exact (List.cons.inj (same.eq_of_length rfl)).1.symm
    · intro same
      rwa [same] at below
  rw [UnderData, names, ← segments_head_eq_nil split]
  constructor
  · rintro ⟨-, same⟩
    have chars : name = ['d', 'a', 't', 'a'] := String.ofList_injective same
    exact append_right_eq_self.mp chars
  · rintro rfl
    exact ⟨rooted, rfl⟩

/-- What the check lets through lies under `/data`, unless the path goes on after these letters with
another one than a slash. -/
theorem checkPath_contained_iff (raw : String) :
    (∀ path, checkPath raw defaultPrefixes = .ok path → UnderData path) ↔
      ['.', '.'] ∈ segments raw ∨
        ∀ tail, raw = "/data" ++ tail → tail = "" ∨ hasRoot tail = true := by
  by_cases climbs : ['.', '.'] ∈ segments raw
  · refine ⟨fun _ => Or.inl climbs, fun _ path accepted => ?_⟩
    exact absurd climbs (checkPath_eq_ok.mp accepted).2.1
  · constructor
    · intro contained
      refine Or.inr fun tail split => ?_
      have accepted : checkPath raw defaultPrefixes = .ok raw :=
        checkPath_eq_ok.mpr ⟨rfl, climbs, tail, split⟩
      have under := contained raw accepted
      rw [split] at under climbs
      exact (underData_append climbs).mp under
    · rintro (climbing | ends) path accepted
      · exact absurd climbing climbs
      · obtain ⟨rfl, -, tail, split⟩ := checkPath_eq_ok.mp accepted
        have done := ends tail split
        rw [split] at climbs ⊢
        exact (underData_append climbs).mpr done

/-- A sibling of `/data` is taken. -/
theorem checkPath_database :
    checkPath "/database/x" defaultPrefixes = .ok "/database/x" ∧ ¬ UnderData "/database/x" := by
  constructor
  · decide
  · rintro ⟨-, below⟩
    revert below
    decide

end NuraOS.Tools

namespace NuraOS.Agent

open Foundation.Serde (Reader Value)
open List

/-! ### Calls that are answered -/

abbrev Signature := String → Option Value

def ToolRegistry.signature (registry : ToolRegistry) : Signature :=
  fun name => (registry.getAllowed name).map Tool.schema

def Signature.Starts (signature : Signature) (name : String) (args : Value) (budget : ToolBudget) : Bool :=
  (signature name).any (fun schema => (validateArgs schema args).isOk) && decide (budget.callsMade < budget.maxCalls)

theorem ToolRegistry.starts_signature {registry : ToolRegistry} {name : String} {args : Value} {budget : ToolBudget} :
    registry.signature.Starts name args budget = true ↔ ∃ tool, registry.Startable name args budget tool := by
  have valid (schema : Value) : (validateArgs schema args).isOk = true ↔ validateArgs schema args = .ok () := by
    cases validateArgs schema args with
    | error reason => simp [Except.isOk, Except.toBool]
    | ok value => simp [Except.isOk, Except.toBool]
  constructor
  · intro starts
    obtain ⟨fits, affordable⟩ := (Bool.and_eq_true ..).mp starts
    obtain ⟨schema, found, fits⟩ := (Option.any_eq_true ..).mp fits
    obtain ⟨tool, allowed, rfl⟩ := Option.map_eq_some_iff.mp found
    exact ⟨tool, allowed, (valid _).mp fits, of_decide_eq_true affordable⟩
  · rintro ⟨tool, allowed, fits, affordable⟩
    simp [Signature.Starts, signature, allowed, (valid _).mpr fits, affordable]

section Answers

variable (fromStr : Reader) (around : Surroundings) (script : Nat → List Item)

def Surroundings.scripted : Surroundings :=
  { around with provider := fun iteration _ => script iteration }

def requestedFrom : Nat → Nat → List AssembledToolCall
  | 0, _ => []
  | left + 1, iteration =>
    if around.cancelled iteration || around.expired iteration then []
    else
      match aggregateSync (around.cancelledWithin iteration) (script iteration) with
      | .error _ => []
      | .ok agg => if requestedCalls agg = [] then [] else requestedCalls agg ++ requestedFrom left (iteration + 1)

def answeredCalls (signature : Signature) (waiting : Nat → Waiting) :
    List AssembledToolCall → ToolBudget → List (String × Value)
  | [], _ => []
  | call :: calls, budget =>
    let args := parseArguments fromStr call.argumentsJson
    if signature.Starts call.name args budget then
      (if waiting budget.callsMade = .answered then [(call.name, args)] else []) ++
        answeredCalls signature waiting calls { budget with callsMade := budget.callsMade + 1 }
    else answeredCalls signature waiting calls budget

end Answers

/-! ### Two registries

Two registries of the same schemas: a turn is the same with both when the calls that are answered get the same
results. -/

section Agreement

variable {fromStr : Reader} {first second : ToolRegistry} {waiting : Nat → Waiting} {config : TurnConfig}
  {around : Surroundings} {script : Nat → List Item}

def ToolRegistry.perform (registry : ToolRegistry) (call : String × Value) : Option (Value × Option String) :=
  (registry.getAllowed call.1).map fun tool => resultOf (tool.execute call.2)

def spent (fromStr : Reader) (signature : Signature) : List AssembledToolCall → ToolBudget → ToolBudget
  | [], budget => budget
  | call :: calls, budget =>
    if signature.Starts call.name (parseArguments fromStr call.argumentsJson) budget then
      spent fromStr signature calls { budget with callsMade := budget.callsMade + 1 }
    else spent fromStr signature calls budget

theorem answeredCalls_append (signature : Signature) (calls later : List AssembledToolCall) (budget : ToolBudget) :
    answeredCalls fromStr signature waiting (calls ++ later) budget =
      answeredCalls fromStr signature waiting calls budget ++
        answeredCalls fromStr signature waiting later (spent fromStr signature calls budget) := by
  induction calls generalizing budget with
  | nil => rfl
  | cons call calls ih =>
    rw [cons_append, answeredCalls, answeredCalls, spent]
    split_ifs
    · rw [ih, append_assoc]
    · rw [ih, append_assoc]
    · exact ih budget

variable {name callTimeout : String} {args : Value} {budget : ToolBudget} {executed : Executed}
  {call : AssembledToolCall} {calls : List AssembledToolCall} {left : Nat} {state : TurnState}
  {agg : AggregatedOutput}

theorem call_congr_of_not_starts (same : first.signature = second.signature)
    (starts : first.signature.Starts name args budget = false) :
    (first.call waiting name args callTimeout budget).result =
      (second.call waiting name args callTimeout budget).result := by
  have schemas : (first.getAllowed name).map Tool.schema = (second.getAllowed name).map Tool.schema :=
    congrFun same name
  unfold ToolRegistry.call
  cases one : first.getAllowed name with
  | none =>
    rw [one, Option.map_none, eq_comm, Option.map_eq_none_iff] at schemas
    rw [schemas]
  | some tool =>
    rw [one, Option.map_some, eq_comm, Option.map_eq_some_iff] at schemas
    obtain ⟨other, two, schema⟩ := schemas
    rw [two]
    dsimp only
    rw [schema]
    cases valid : validateArgs tool.schema args with
    | error reason => rfl
    | ok value =>
      have exhausted : ¬ budget.callsMade < budget.maxCalls := fun less =>
        Bool.false_ne_true (starts.symm.trans (ToolRegistry.starts_signature.mpr ⟨tool, one, valid, less⟩))
      rw [ToolBudget.consume, if_pos (Nat.not_lt.mp exhausted)]

theorem call_of_signature_starts (waiting : Nat → Waiting) (callTimeout : String) (registry : ToolRegistry)
    (starts : registry.signature.Starts name args budget = true) :
    ∃ tool, registry.getAllowed name = some tool ∧
      registry.call waiting name args callTimeout budget =
        ⟨(waiting budget.callsMade).deliver name callTimeout (tool.execute args),
          { budget with callsMade := budget.callsMade + 1 }, [.execute tool args]⟩ := by
  rcases registry.call_cases waiting name callTimeout args budget with ⟨tool, startable, called⟩ | ⟨none, -⟩
  · exact ⟨tool, startable.allowed, called⟩
  · obtain ⟨tool, startable⟩ := ToolRegistry.starts_signature.mp starts
    exact absurd startable (none tool)

/-- A call that starts a tool gives the same result with both when the tool does, or does not answer. -/
theorem resultOf_call_eq_iff (same : first.signature = second.signature)
    (starts : first.signature.Starts name args budget = true) :
    resultOf (first.call waiting name args callTimeout budget).result =
        resultOf (second.call waiting name args callTimeout budget).result ↔
      (waiting budget.callsMade = .answered → first.perform (name, args) = second.perform (name, args)) := by
  obtain ⟨one, allowedOne, callOne⟩ := call_of_signature_starts waiting callTimeout first starts
  obtain ⟨two, allowedTwo, callTwo⟩ := call_of_signature_starts waiting callTimeout second (same ▸ starts)
  rw [callOne, callTwo, ToolRegistry.perform, ToolRegistry.perform, allowedOne, allowedTwo, Option.map_some,
    Option.map_some, Option.some.injEq]
  cases waiting budget.callsMade with
  | answered => exact ⟨fun equal _ => equal, fun equal => equal rfl⟩
  | timedOut => exact ⟨(fun _ answered => nomatch answered), fun _ => rfl⟩
  | disconnected => exact ⟨(fun _ answered => nomatch answered), fun _ => rfl⟩

def Executed.after (fromStr : Reader) (registry : ToolRegistry) (waiting : Nat → Waiting) (config : TurnConfig)
    (executed : Executed) (call : AssembledToolCall) : Executed :=
  (executeTools fromStr registry waiting config [call] executed).2

theorem executeTools_cons (registry : ToolRegistry) (call : AssembledToolCall) (calls : List AssembledToolCall)
    (executed : Executed) :
    (executeTools fromStr registry waiting config (call :: calls) executed).2 =
      (executeTools fromStr registry waiting config calls (executed.after fromStr registry waiting config call)).2 :=
  rfl

theorem results_executeTools (registry : ToolRegistry) (calls : List AssembledToolCall) (executed : Executed) :
    executed.results <+: (executeTools fromStr registry waiting config calls executed).2.results := by
  fun_induction executeTools fromStr registry waiting config calls executed with
  | case1 executed => exact List.prefix_rfl
  | case2 call calls executed args called result later ih => exact (List.prefix_append _ _).trans ih

theorem results_after (registry : ToolRegistry) (executed : Executed) (call : AssembledToolCall) :
    (executed.after fromStr registry waiting config call).results =
      executed.results ++ [(call.id, resultOf
        (registry.call waiting call.name (parseArguments fromStr call.argumentsJson) config.callTimeout
          executed.budget).result)] :=
  rfl

theorem budget_executeTools (registry : ToolRegistry) (calls : List AssembledToolCall) (executed : Executed) :
    (executeTools fromStr registry waiting config calls executed).2.budget =
      spent fromStr registry.signature calls executed.budget := by
  induction calls generalizing executed with
  | nil => rfl
  | cons call calls ih =>
    rw [executeTools, ih, spent]
    split_ifs with starts
    · obtain ⟨tool, -, called⟩ := call_of_signature_starts waiting config.callTimeout registry starts
      rw [called]
    · rcases registry.call_cases waiting call.name config.callTimeout
        (parseArguments fromStr call.argumentsJson) executed.budget with ⟨tool, startable, -⟩ | ⟨-, unpaid, -⟩
      · exact absurd (ToolRegistry.starts_signature.mpr ⟨tool, startable⟩) starts
      · rw [unpaid]

/-- One call has the same result with both registries exactly when it gets the same from them, if it is answered. -/
theorem after_results_iff (same : first.signature = second.signature) (executed : Executed) (call : AssembledToolCall) :
    (executed.after fromStr first waiting config call).results =
        (executed.after fromStr second waiting config call).results ↔
      ∀ answered ∈ answeredCalls fromStr first.signature waiting [call] executed.budget,
        first.perform answered = second.perform answered := by
  rw [results_after, results_after, append_right_inj, List.cons.injEq, Prod.mk.injEq, answeredCalls]
  cases starts : first.signature.Starts call.name (parseArguments fromStr call.argumentsJson) executed.budget with
  | false => simp [call_congr_of_not_starts same starts, answeredCalls]
  | true =>
    have agree : resultOf (first.call waiting call.name _ config.callTimeout executed.budget).result = _ ↔ _ :=
      resultOf_call_eq_iff same starts
    simp only [true_and, and_true, agree, if_true, answeredCalls, append_nil]
    split_ifs with answered
    · simp [answered]
    · simp [answered]

theorem after_congr (same : first.signature = second.signature)
    (results : (executed.after fromStr first waiting config call).results =
      (executed.after fromStr second waiting config call).results) :
    executed.after fromStr first waiting config call = executed.after fromStr second waiting config call := by
  have budgets : (executed.after fromStr first waiting config call).budget =
      (executed.after fromStr second waiting config call).budget := by
    rw [Executed.after, Executed.after, budget_executeTools, budget_executeTools, same]
  rw [results_after, results_after, append_right_inj, List.cons.injEq, Prod.mk.injEq] at results
  simp only [Executed.after, executeTools, results.1.2] at budgets ⊢
  rw [budgets]

theorem after_results_of_executeTools
    (results : (executeTools fromStr first waiting config (call :: calls) executed).2.results =
      (executeTools fromStr second waiting config (call :: calls) executed).2.results) :
    (executed.after fromStr first waiting config call).results =
      (executed.after fromStr second waiting config call).results := by
  have length : (executed.after fromStr first waiting config call).results.length =
      (executed.after fromStr second waiting config call).results.length := by
    rw [results_after, results_after, length_append, length_append]
    rfl
  have one := @results_executeTools fromStr waiting config first calls
    (executed.after fromStr first waiting config call)
  have two := @results_executeTools fromStr waiting config second calls
    (executed.after fromStr second waiting config call)
  rw [executeTools_cons, executeTools_cons] at results
  rw [results] at one
  exact (prefix_of_prefix_length_le one two length.le).eq_of_length length

/-- The tools of one answer: the results are the same with both registries exactly when the calls that are answered
get the same, and then so is all else. -/
theorem executeTools_congr_iff (same : first.signature = second.signature) (calls : List AssembledToolCall)
    (executed : Executed) :
    ((executeTools fromStr first waiting config calls executed).2.results =
          (executeTools fromStr second waiting config calls executed).2.results ↔
        ∀ call ∈ answeredCalls fromStr first.signature waiting calls executed.budget,
          first.perform call = second.perform call) ∧
      ((executeTools fromStr first waiting config calls executed).2.results =
          (executeTools fromStr second waiting config calls executed).2.results →
        (executeTools fromStr first waiting config calls executed).2 =
          (executeTools fromStr second waiting config calls executed).2) := by
  induction calls generalizing executed with
  | nil => simp [executeTools, answeredCalls]
  | cons call calls ih =>
    have split : answeredCalls fromStr first.signature waiting (call :: calls) executed.budget = _ :=
      answeredCalls_append first.signature [call] calls executed.budget
    have single : (executed.after fromStr first waiting config call).results = _ ↔ _ :=
      after_results_iff same executed call
    rw [split, forall_mem_append, ← single]
    by_cases here : (executed.after fromStr first waiting config call).results =
        (executed.after fromStr second waiting config call).results
    · rw [and_iff_right here, executeTools_cons, executeTools_cons, ← after_congr same here, ← budget_executeTools]
      exact ih _
    · exact ⟨iff_of_false (fun results => here (after_results_of_executeTools results)) fun both => here both.1,
        fun results => absurd (after_results_of_executeTools results) here⟩

theorem toolMessage_injective : Function.Injective toolMessage := by
  intro results others equal
  have parts := congrArg Message.parts equal
  refine map_injective_iff.mpr ?_ parts
  rintro ⟨callId, output, error⟩ ⟨callId', output', error'⟩ equal
  cases equal
  rfl

/-- A turn that ends here makes no more calls and is the same for all registries; or the tools of an answer are
executed and it goes on. -/
theorem turnLoop_cases (left : Nat) (state : TurnState) :
    (requestedFrom around script left state.iterations = [] ∧ ∀ one two,
        (turnLoop fromStr one config (around.scripted script) left state).2 =
          (turnLoop fromStr two config (around.scripted script) left state).2) ∨
      ∃ before agg, left = before + 1 ∧ requestedCalls agg ≠ [] ∧
        requestedFrom around script left state.iterations =
          requestedCalls agg ++ requestedFrom around script before (state.iterations + 1) ∧
        ∀ registry, (turnLoop fromStr registry config (around.scripted script) left state).2 =
          (turnLoop fromStr registry config (around.scripted script) before
            (state.afterTools fromStr registry config (around.scripted script) agg)).2 := by
  cases left with
  | zero => exact .inl ⟨rfl, fun one two => by unfold turnLoop; rfl⟩
  | succ before =>
    rw [requestedFrom]
    by_cases stopped : (around.cancelled state.iterations || around.expired state.iterations) = true
    · refine .inl ⟨if_pos stopped, fun one two => ?_⟩
      unfold turnLoop
      cases cancelled : around.cancelled state.iterations <;> simp_all [Surroundings.scripted]
    obtain ⟨cancelled, expired⟩ := Bool.or_eq_false_iff.mp (Bool.not_eq_true _ ▸ stopped)
    rw [if_neg stopped]
    cases aggregated : aggregateSync (around.cancelledWithin state.iterations) (script state.iterations) with
    | error error =>
      refine .inl ⟨rfl, fun one two => ?_⟩
      unfold turnLoop
      simp [Surroundings.scripted, cancelled, expired, aggregated]
    | ok agg =>
      by_cases requested : requestedCalls agg = []
      · refine .inl ⟨if_pos requested, fun one two => ?_⟩
        unfold turnLoop
        simp [Surroundings.scripted, cancelled, expired, aggregated, requested]
      · have running : ¬ agg.cancelled = true := fun interrupted => requested (if_pos interrupted)
        refine .inr ⟨before, agg, rfl, requested, if_neg requested, fun registry => ?_⟩
        rw [turnLoop]
        simp only [Surroundings.scripted, cancelled, expired, aggregated, running, requested, if_false,
          Bool.false_eq_true]

theorem afterTools_congr (same : first.signature = second.signature)
    (results : toolResults fromStr first config around state agg = toolResults fromStr second config around state agg) :
    state.afterTools fromStr first config around agg = state.afterTools fromStr second config around agg := by
  have executed : (state.execute fromStr first config around agg).2 =
      (state.execute fromStr second config around agg).2 := (executeTools_congr_iff same _ _).2 results
  simp only [TurnState.afterTools, executed]

/-- Turns that leave the same messages have had the same results in the round before. -/
theorem toolResults_eq_of_turns
    (requested : requestedCalls agg ≠ [])
    (equal : (turnLoop fromStr first config around left (state.afterTools fromStr first config around agg)).2 =
      (turnLoop fromStr second config around left (state.afterTools fromStr second config around agg)).2) :
    toolResults fromStr first config around state agg = toolResults fromStr second config around state agg := by
  have appended (registry : ToolRegistry) : ∃ later,
      (turnLoop fromStr registry config around left (state.afterTools fromStr registry config around agg)).2.2 =
        (state.messages ++ [assistantMessage fromStr agg]) ++
          toolMessage (toolResults fromStr registry config around state agg) :: later := by
    obtain ⟨later, same, -⟩ : ∃ later, (turnLoop fromStr registry config around left
        (state.afterTools fromStr registry config around agg)).2.2 = _ ++ later ∧ Exchanges later :=
      turnLoop_exchanges ..
    rw [messages_afterTools state requested] at same
    exact ⟨later, by simpa using same⟩
  obtain ⟨one, splitOne⟩ := appended first
  obtain ⟨two, splitTwo⟩ := appended second
  have messages := congrArg Prod.snd equal
  rw [splitOne, splitTwo] at messages
  exact toolMessage_injective (List.cons.inj (append_cancel_left messages)).1

/-- Two turns with the same answers of the model are the same exactly when the calls that are answered get the same
results. -/
theorem turnLoop_eq_iff (same : first.signature = second.signature) (left : Nat) (state : TurnState) :
    (turnLoop fromStr first config (around.scripted script) left state).2 =
        (turnLoop fromStr second config (around.scripted script) left state).2 ↔
      ∀ call ∈ answeredCalls fromStr first.signature around.waiting (requestedFrom around script left state.iterations)
        state.budget, first.perform call = second.perform call := by
  induction left using Nat.strong_induction_on generalizing state with
  | h left ih =>
    rcases @turnLoop_cases fromStr config around script left state with
      ⟨none, equal⟩ | ⟨before, agg, rfl, requested, requests, round⟩
    · simp [none, equal first second, answeredCalls]
    have results : toolResults fromStr first config (around.scripted script) state agg =
        toolResults fromStr second config (around.scripted script) state agg ↔
        ∀ call ∈ answeredCalls fromStr first.signature around.waiting (requestedCalls agg) state.budget,
          first.perform call = second.perform call :=
      (executeTools_congr_iff same (requestedCalls agg) _).1
    have budget : (state.afterTools fromStr first config (around.scripted script) agg).budget =
        spent fromStr first.signature (requestedCalls agg) state.budget := budget_executeTools ..
    rw [requests, answeredCalls_append, forall_mem_append, ← results, ← budget, round first, round second]
    constructor
    · intro equal
      have here := toolResults_eq_of_turns requested equal
      rw [← afterTools_congr same here] at equal
      exact ⟨here, (ih before (Nat.lt_succ_self _) _).mp equal⟩
    · rintro ⟨here, later⟩
      rw [← afterTools_congr same here]
      exact (ih before (Nat.lt_succ_self _) _).mpr later

end Agreement

end NuraOS.Agent

/-! ### The secrets file -/

namespace NuraOS.Tools

open Foundation
open Foundation.Serde (Reader Value)
open Agent List

def secretsPath : String :=
  "/data/etc/secrets.toml"

/-- A file system with a secrets file, whose contents are left open. Links may lead to it under other paths. -/
structure Disk (Inode : Type) where
  openFile : String → Except String Inode
  contents : Inode → Except String Bytes
  secrets : Inode
  found : openFile secretsPath = .ok secrets

variable {Inode : Type} [DecidableEq Inode]

def Disk.withSecrets (disk : Disk Inode) (secrets : Bytes) : FileSystem Inode where
  openFile := disk.openFile
  contents := Function.update disk.contents disk.secrets (.ok secrets)

/-- The arguments of a call of `fs.read` that opens the secrets. -/
def Disk.OpensSecrets (disk : Disk Inode) (args : Value) : Prop :=
  ∃ path, (args.index "path").asStr = some path ∧ checkPath path defaultPrefixes = .ok path ∧
    disk.openFile path = .ok disk.secrets

/-- Tools with `fs.read` among them, allowlisted. -/
def withFsRead (others : ToolRegistry) (files : FileSystem Inode) : ToolRegistry where
  tools name := if name = "fs.read" then some (fsRead files) else others.tools name
  allowlist name := name = "fs.read" || others.allowlist name

/-- The schemas of tools with `fs.read` among them. -/
def fsReadSignature (others : ToolRegistry) : Signature :=
  fun name => if name = "fs.read" then some fsReadSchema else others.signature name

omit [DecidableEq Inode] in
theorem signature_withFsRead (others : ToolRegistry) (files : FileSystem Inode) :
    (withFsRead others files).signature = fsReadSignature others := by
  funext name
  unfold ToolRegistry.signature ToolRegistry.getAllowed fsReadSignature withFsRead
  by_cases isRead : name = "fs.read"
  · simp [isRead, fsRead]
  · simp [isRead, ToolRegistry.signature, ToolRegistry.getAllowed]

omit [DecidableEq Inode] in
theorem perform_fsRead (others : ToolRegistry) (files : FileSystem Inode) (args : Value) :
    (withFsRead others files).perform ("fs.read", args) =
      some (resultOf (fsReadExecute files defaultPrefixes args)) := by
  simp [ToolRegistry.perform, ToolRegistry.getAllowed, withFsRead, fsRead]

omit [DecidableEq Inode] in
theorem perform_other (others : ToolRegistry) (files : FileSystem Inode) {call : String × Value}
    (other : call.1 ≠ "fs.read") : (withFsRead others files).perform call = others.perform call := by
  simp [ToolRegistry.perform, ToolRegistry.getAllowed, withFsRead, other]

variable {disk : Disk Inode} {args : Value}

theorem readFile_congr {path : String} (closed : disk.openFile path ≠ .ok disk.secrets)
    (maxBytes : Nat) (first second : Bytes) :
    readFile (disk.withSecrets first) maxBytes path = readFile (disk.withSecrets second) maxBytes path := by
  cases opened : disk.openFile path with
  | error e => simp only [readFile, Disk.withSecrets, opened]
  | ok file =>
    have other : file ≠ disk.secrets := by
      rintro rfl
      exact closed opened
    simp only [readFile, Disk.withSecrets, opened, Function.update_of_ne other]

theorem fsReadExecute_congr (closed : ¬ disk.OpensSecrets args) (first second : Bytes) :
    fsReadExecute (disk.withSecrets first) defaultPrefixes args =
      fsReadExecute (disk.withSecrets second) defaultPrefixes args := by
  unfold fsReadExecute
  cases given : (args.index "path").asStr with
  | none => rfl
  | some path =>
    dsimp only
    cases checked : checkPath path defaultPrefixes with
    | error reason => rfl
    | ok taken =>
      obtain ⟨rfl, -⟩ := checkPath_eq_ok.mp checked
      exact readFile_congr (fun opened => closed ⟨taken, given, checked, opened⟩) _ first second

theorem readResult_ne (path : String) (maxBytes : Nat) :
    readResult path maxBytes [] ≠ readResult path maxBytes [0] := by
  intro equal
  cases maxBytes with
  | zero =>
    have truncated := congrArg (fun value : Value => (value.index "truncated").asBool) equal
    simp [readResult, Value.index, Serde.get_object, Value.asBool] at truncated
  | succ maxBytes =>
    have read := congrArg (fun value : Value => (value.index "bytes_read").asU64) equal
    simp [readResult, Value.index, Serde.get_object, Value.asU64] at read

theorem fsReadExecute_ne (opens : disk.OpensSecrets args) :
    resultOf (fsReadExecute (disk.withSecrets []) defaultPrefixes args) ≠
      resultOf (fsReadExecute (disk.withSecrets [0]) defaultPrefixes args) := by
  obtain ⟨path, given, checked, opened⟩ := opens
  have reads (secrets : Bytes) : fsReadExecute (disk.withSecrets secrets) defaultPrefixes args =
      .ok (readResult path (requestedBytes args) secrets) := by
    simp only [fsReadExecute, given, checked, readFile, Disk.withSecrets, opened, Function.update_self]
  rw [reads, reads]
  intro equal
  exact readResult_ne path _ (Prod.mk.inj equal).1

/-- The model learns nothing of the secrets exactly when no call of `fs.read` that it makes and that is answered opens
them. -/
theorem secrets_stay_iff (fromStr : Reader) (others : ToolRegistry) (config : TurnConfig) (around : Surroundings)
    (script : Nat → List Item) (disk : Disk Inode) (messages : List Message) :
    (∀ first second,
      runTurn fromStr (withFsRead others (disk.withSecrets first)) config (around.scripted script) messages =
        runTurn fromStr (withFsRead others (disk.withSecrets second)) config (around.scripted script) messages) ↔
      ∀ call ∈ answeredCalls fromStr (fsReadSignature others) around.waiting
          (requestedFrom around script config.maxIterations 0) (ToolBudget.new config.toolBudget),
        call.1 = "fs.read" → ¬ disk.OpensSecrets call.2 := by
  have agree (first second : Bytes) :
      runTurn fromStr (withFsRead others (disk.withSecrets first)) config (around.scripted script) messages =
        runTurn fromStr (withFsRead others (disk.withSecrets second)) config (around.scripted script) messages ↔ _ :=
    turnLoop_eq_iff ((signature_withFsRead others _).trans (signature_withFsRead others _).symm) config.maxIterations _
  simp only [agree, signature_withFsRead]
  constructor
  · intro same call member isRead opens
    obtain ⟨name, args⟩ := call
    cases isRead
    have equal := same [] [0] _ member
    exact fsReadExecute_ne opens (Option.some.inj equal)
  · intro closed first second call member
    by_cases isRead : call.1 = "fs.read"
    · obtain ⟨name, args⟩ := call
      cases isRead
      rw [perform_fsRead, perform_fsRead, fsReadExecute_congr (closed _ member rfl) first second]
    · rw [perform_other others _ isRead, perform_other others _ isRead]

def plainDisk : Disk Unit where
  openFile _ := .ok ()
  contents _ := .ok []
  secrets := ()
  found := rfl

def secretsArguments : String :=
  "\x7b\"path\":\"/data/etc/secrets.toml\"\x7d"

def curiousScript : Nat → List Item
  | 0 => [.ok (.toolCallDelta "c1" (some "fs.read") secretsArguments), .ok (.done .toolCall)]
  | _ => []

def quiet : Surroundings where
  provider _ _ := []
  cancelled _ := false
  cancelledWithin _ _ := false
  expired _ := false
  waiting _ := .answered

def noTools : ToolRegistry where
  tools _ := none
  allowlist _ := false

def plainConfig : TurnConfig where
  maxIterations := 2
  callTimeout := "10s"
  toolBudget := 4

theorem curious_opens : plainDisk.OpensSecrets (parseArguments Serde.readPlain secretsArguments) := by
  refine ⟨secretsPath, by decide +kernel, ?_, rfl⟩
  exact checkPath_eq_ok.mpr ⟨rfl, by decide, "/etc/secrets.toml", rfl⟩

theorem curious_answered :
    ("fs.read", parseArguments Serde.readPlain secretsArguments) ∈
      answeredCalls Serde.readPlain (fsReadSignature noTools) quiet.waiting (requestedFrom quiet curiousScript 2 0)
        (ToolBudget.new 4) := by
  have requests : requestedFrom quiet curiousScript 2 0 = [⟨"c1", "fs.read", secretsArguments⟩] := by decide
  have starts : (fsReadSignature noTools).Starts "fs.read" (parseArguments Serde.readPlain secretsArguments)
      (ToolBudget.new 4) = true := by decide +kernel
  rw [requests, answeredCalls]
  dsimp only
  rw [if_pos starts]
  exact mem_append_left _ (.head _)

/-- A model that asks for the secrets is told of them. -/
theorem curious_learns :
    ¬ ∀ first second,
      runTurn Serde.readPlain (withFsRead noTools (plainDisk.withSecrets first)) plainConfig
          (quiet.scripted curiousScript) [] =
        runTurn Serde.readPlain (withFsRead noTools (plainDisk.withSecrets second)) plainConfig
          (quiet.scripted curiousScript) [] := by
  intro same
  have agree := (turnLoop_eq_iff ((signature_withFsRead noTools (plainDisk.withSecrets [])).trans
    (signature_withFsRead noTools (plainDisk.withSecrets [0])).symm) 2 _).mp (same [] [0])
  rw [signature_withFsRead] at agree
  have equal := agree _ curious_answered
  rw [perform_fsRead, perform_fsRead] at equal
  exact fsReadExecute_ne curious_opens (Option.some.inj equal)

end NuraOS.Tools
