/-
Purpose: What `aggregate_sync` makes of a reply, in any order, and `aggregate` however its threads take turns.
-/
import Mathlib.Data.List.Pairwise
import NuraOS.Agent.Stream
import NuraOS.Foundation.Machine
import NuraOS.Foundation.SortedMap

namespace NuraOS.Agent

open Foundation.Iteration (Yields)
open List StreamEvent

section Telling

variable {State : Type} {next : State → Option Item × State}

/-- From a state on the stream tells this first, and then goes on as from another state, unless it was the last. -/
def Tells (next : State → Option Item × State) (state : State) (result : Option StreamEvent) (after : State) :
    Prop :=
  match result with
  | none => next state = next after
  | some (.done stopReason) =>
    (next state).1 = some (.ok (.done stopReason)) ∧ (next (next state).2).1 = none
  | some event => next state = (some (.ok event), after)

def followedBy (result : Option StreamEvent) (rest : List StreamEvent) : List StreamEvent :=
  match result with
  | none => rest
  | some (.done stopReason) => [.done stopReason]
  | some event => event :: rest

theorem Tells.yields {state after : State} {result : Option StreamEvent} {rest : List StreamEvent}
    (tells : Tells next state result after) (yields : Yields next after (rest.map .ok)) :
    Yields next state ((followedBy result rest).map .ok) := by
  cases result with
  | none => exact Yields.congr tells yields
  | some event =>
    cases event with
    | done stopReason => exact tells
    | _ =>
      refine ⟨?_, ?_⟩
      · rw [show next state = _ from tells]
      · rw [show next state = _ from tells]
        exact yields

end Telling

def Ordinary : StreamEvent → Prop
  | .done _ | .error _ => False
  | _ => True

structure CallDelta where
  id : String
  name : Option String
  chunk : String
deriving DecidableEq

def StreamEvent.text? : StreamEvent → Option String
  | .tokenDelta text => some text
  | _ => none

def StreamEvent.callDelta? : StreamEvent → Option CallDelta
  | .toolCallDelta id name chunk => some ⟨id, name, chunk⟩
  | _ => none

def StreamEvent.usage? : StreamEvent → Option Usage
  | .usage report => some report
  | _ => none

def assemble (calls : List PartialToolCall) (deltas : List CallDelta) : List PartialToolCall :=
  deltas.foldl (fun calls delta => extendCall delta.id delta.name delta.chunk calls) calls

def mergeAll (usage : Option Usage) (reports : List Usage) : Option Usage :=
  reports.foldl (fun usage report => some (mergeUsage usage report)) usage

def absorb (state : Aggregation) (events : List StreamEvent) : Aggregation where
  output :=
    { state.output with
      text := state.output.text ++ String.join (events.filterMap text?)
      usage := mergeAll state.output.usage (events.filterMap usage?) }
  partialCalls := assemble state.partialCalls (events.filterMap callDelta?)

theorem absorb_nil (state : Aggregation) : absorb state [] = state := by
  simp [absorb, assemble, mergeAll]

theorem handleEvent_ordinary {event : StreamEvent} (ordinary : Ordinary event) (state : Aggregation) :
    handleEvent event state = .ok (false, absorb state [event]) := by
  cases event with
  | done | error => exact ordinary.elim
  | _ =>
    simp [handleEvent, absorb, assemble, mergeAll, filterMap_cons, text?,
      callDelta?, usage?, String.join_cons]

theorem absorb_cons (state : Aggregation) (event : StreamEvent) (events : List StreamEvent) :
    absorb state (event :: events) = absorb (absorb state [event]) events := by
  cases event <;>
    simp [absorb, assemble, mergeAll, filterMap_cons, text?, callDelta?,
      usage?, String.join_cons, String.append_assoc]

variable {events : List StreamEvent} {calls : List PartialToolCall} {deltas : List CallDelta}
  {id : String} {call : PartialToolCall} {cancelled : Nat → Bool} {items : List Item}

theorem collectEvents_ordinary (ordinary : ∀ event ∈ events, Ordinary event)
    (rest : List Item) (turn : Nat) (state : Aggregation) :
    collectEvents (fun _ => false) turn state (events.map .ok ++ rest) =
      collectEvents (fun _ => false) (turn + events.length) (absorb state events) rest := by
  induction events generalizing turn state with
  | nil => rw [absorb_nil]; rfl
  | cons event events ih =>
    obtain ⟨here, others⟩ := forall_mem_cons.mp ordinary
    rw [map_cons, cons_append, collectEvents, if_neg Bool.false_ne_true]
    simp only [handleEvent_ordinary here]
    rw [ih others, ← absorb_cons, length_cons, Nat.add_right_comm, Nat.add_assoc]

theorem aggregateSync_complete (ordinary : ∀ event ∈ events, Ordinary event)
    (stopReason : StopReason) :
    aggregateSync (fun _ => false) ((events ++ [done stopReason]).map .ok) =
      .ok
        { text := String.join (events.filterMap text?)
          toolCalls := assembleCalls (assemble [] (events.filterMap callDelta?))
          usage := mergeAll none (events.filterMap usage?)
          stopReason := stopReason
          cancelled := false
          timedOut := false } := by
  rw [aggregateSync, map_append, collectEvents_ordinary ordinary]
  simp [collectEvents, handleEvent, absorb, AggregatedOutput.empty]

theorem join_filter_ne_empty (texts : List String) :
    String.join (texts.filter (· ≠ "")) = String.join texts := by
  induction texts with
  | nil => rfl
  | cons text texts ih =>
    by_cases empty : text = ""
    · rw [filter_cons_of_neg (by simpa using empty), ih, String.join_cons, empty,
        String.empty_append]
    · rw [filter_cons_of_pos (by simpa using empty), String.join_cons, String.join_cons,
        ih]

theorem id_extendCall (id : String) (name : Option String) (chunk : String) (calls : List PartialToolCall) :
    (extendCall id name chunk calls).map PartialToolCall.id =
      if id ∈ calls.map PartialToolCall.id then calls.map PartialToolCall.id
      else calls.map PartialToolCall.id ++ [id] := by
  induction calls with
  | nil => simp [extendCall, PartialToolCall.extend]
  | cons call calls ih =>
    rw [extendCall]
    by_cases same : call.id = id
    · simp [same, PartialToolCall.extend]
    · rw [if_neg same, map_cons, ih]
      simp only [map_cons, mem_cons, show ¬ id = call.id from fun h => same h.symm, false_or]
      split <;> rfl

theorem nodup_extendCall (distinct : (calls.map PartialToolCall.id).Nodup)
    (id : String) (name : Option String) (chunk : String) :
    ((extendCall id name chunk calls).map PartialToolCall.id).Nodup := by
  rw [id_extendCall]
  split
  · exact distinct
  · rename_i fresh
    exact nodup_append.mpr
      ⟨distinct, nodup_singleton _, fun one member other same => by
        rw [mem_singleton.mp same]
        rintro rfl
        exact fresh member⟩

theorem nodup_assemble (distinct : (calls.map PartialToolCall.id).Nodup)
    (deltas : List CallDelta) : ((assemble calls deltas).map PartialToolCall.id).Nodup := by
  induction deltas generalizing calls with
  | nil => exact distinct
  | cons delta deltas ih => exact ih (nodup_extendCall distinct ..)

theorem nodup_assemble_nil (deltas : List CallDelta) : ((assemble [] deltas).map PartialToolCall.id).Nodup :=
  have none : (([] : List PartialToolCall).map PartialToolCall.id).Nodup := nodup_nil
  nodup_assemble none deltas

theorem id_mem_assemble :
    id ∈ (assemble calls deltas).map PartialToolCall.id ↔
      id ∈ calls.map PartialToolCall.id ∨ id ∈ deltas.map CallDelta.id := by
  induction deltas generalizing calls with
  | nil => simp [assemble]
  | cons delta deltas ih =>
    have step : assemble calls (delta :: deltas) =
        assemble (extendCall delta.id delta.name delta.chunk calls) deltas := rfl
    rw [step, ih, id_extendCall, map_cons, mem_cons]
    split
    · rename_i known
      constructor
      · rintro (old | later)
        · exact .inl old
        · exact .inr (.inr later)
      · rintro (old | rfl | later)
        · exact .inl old
        · exact .inl known
        · exact .inr later
    · rw [mem_append, mem_singleton, or_assoc]

/-! The call of one ID is what its pieces make of it, whatever stands between them. -/

def lookup (id : String) (calls : List PartialToolCall) : Option PartialToolCall :=
  calls.find? (·.id = id)

def extendAll (call : PartialToolCall) (deltas : List CallDelta) : PartialToolCall :=
  deltas.foldl (fun call delta => call.extend delta.name delta.chunk) call

theorem lookup_extendCall (id other : String) (name : Option String) (chunk : String)
    (calls : List PartialToolCall) :
    lookup id (extendCall other name chunk calls) =
      if other = id then some (((lookup id calls).getD ⟨id, "", ""⟩).extend name chunk)
      else lookup id calls := by
  induction calls with
  | nil =>
    by_cases same : other = id
    · simp [lookup, extendCall, PartialToolCall.extend, same]
    · simp [lookup, extendCall, PartialToolCall.extend, same]
  | cons call calls ih =>
    unfold lookup at ih ⊢
    rw [extendCall]
    by_cases here : call.id = other
    · rw [if_pos here]
      by_cases same : other = id
      · simp [PartialToolCall.extend, here, same]
      · simp [PartialToolCall.extend, here, same]
    · rw [if_neg here, find?_cons]
      by_cases asked : call.id = id
      · have different : ¬ other = id := fun same => here (asked.trans same.symm)
        simp [asked, different]
      · simpa [asked] using ih

theorem lookup_assemble (id : String) (calls : List PartialToolCall) (deltas : List CallDelta) :
    lookup id (assemble calls deltas) =
      if deltas.filter (·.id = id) = [] then lookup id calls
      else some (extendAll ((lookup id calls).getD ⟨id, "", ""⟩) (deltas.filter (·.id = id))) := by
  induction deltas generalizing calls with
  | nil => rfl
  | cons delta deltas ih =>
    have step : assemble calls (delta :: deltas) =
        assemble (extendCall delta.id delta.name delta.chunk calls) deltas := rfl
    rw [step, ih, lookup_extendCall]
    by_cases same : delta.id = id
    · rw [filter_cons_of_pos (by simpa using same), if_pos same, if_neg (cons_ne_nil _ _)]
      split
      · rename_i last
        rw [last]
        rfl
      · rfl
    · rw [filter_cons_of_neg (by simpa using same), if_neg same]

theorem mem_iff_lookup (distinct : (calls.map PartialToolCall.id).Nodup) :
    call ∈ calls ↔ lookup call.id calls = some call := by
  rw [lookup, Foundation.find?_key_eq_some_iff distinct]
  simp

theorem id_extendAll (call : PartialToolCall) (deltas : List CallDelta) : (extendAll call deltas).id = call.id := by
  induction deltas generalizing call with
  | nil => rfl
  | cons delta deltas ih => exact ih _

theorem arguments_extendAll (call : PartialToolCall) (deltas : List CallDelta) :
    (extendAll call deltas).arguments = call.arguments ++ String.join (deltas.map CallDelta.chunk) := by
  induction deltas generalizing call with
  | nil => simp [extendAll]
  | cons delta deltas ih =>
    have step : extendAll call (delta :: deltas) = extendAll (call.extend delta.name delta.chunk) deltas := rfl
    rw [step, ih, map_cons, String.join_cons, PartialToolCall.extend,
      String.append_assoc]

theorem name_extendAll {name : String} (only : ∀ delta ∈ deltas, ∀ said ∈ delta.name, said = name)
    (given : call.name = name ∨ ∃ delta ∈ deltas, delta.name = some name) :
    (extendAll call deltas).name = name := by
  induction deltas generalizing call with
  | nil =>
    rcases given with same | ⟨_, member, _⟩
    · exact same
    · cases member
  | cons delta deltas ih =>
    obtain ⟨here, rest⟩ := forall_mem_cons.mp only
    refine ih rest ?_
    simp only [PartialToolCall.extend]
    cases said : delta.name with
    | some other => exact .inl (here other said)
    | none =>
      rcases given with same | ⟨other, member, isName⟩
      · exact .inl same
      · rcases mem_cons.mp member with rfl | member
        · rw [said] at isName
          cases isName
        · exact .inr ⟨other, member, isName⟩

theorem eq_of_nodup_filterMap {α β : Type} {pick : α → Option β} {list : List α}
    (distinct : (list.filterMap pick).Nodup) {first second : α} {value : β} (inList : first ∈ list)
    (alsoInList : second ∈ list) (picked : pick first = some value) (alsoPicked : pick second = some value) :
    first = second := by
  by_contra different
  have : Std.Symm fun a a' => ∀ b, pick a = some b → ∀ b', pick a' = some b' → b ≠ b' :=
    ⟨fun _ _ apart _ one _ two => (apart _ two _ one).symm⟩
  exact (pairwise_filterMap.mp distinct).forall inList alsoInList different value picked value
    alsoPicked rfl

theorem extendCall_fresh
    (fresh : id ∉ calls.map PartialToolCall.id) (name : Option String) (chunk : String) :
    extendCall id name chunk calls = calls ++ [PartialToolCall.extend ⟨id, "", ""⟩ name chunk] := by
  induction calls with
  | nil => rfl
  | cons call calls ih =>
    rw [map_cons, mem_cons, not_or] at fresh
    rw [extendCall, if_neg (Ne.symm fresh.1), ih fresh.2, cons_append]

theorem extendCall_last (call : PartialToolCall)
    (fresh : call.id ∉ calls.map PartialToolCall.id) (name : Option String) (chunk : String) :
    extendCall call.id name chunk (calls ++ [call]) = calls ++ [call.extend name chunk] := by
  induction calls with
  | nil => exact if_pos rfl
  | cons other calls ih =>
    rw [map_cons, mem_cons, not_or] at fresh
    rw [cons_append, extendCall, if_neg (Ne.symm fresh.1), ih fresh.2,
      cons_append]

theorem mem_assembleCalls {call : AssembledToolCall} :
    call ∈ assembleCalls calls ↔
      ⟨call.id, call.name, call.argumentsJson⟩ ∈ calls ∧ call.id ≠ "" ∧ call.name ≠ "" := by
  rw [assembleCalls, mem_map]
  constructor
  · rintro ⟨partialCall, kept, rfl⟩
    obtain ⟨member, proper⟩ := mem_filter.mp kept
    exact ⟨member, of_decide_eq_true proper⟩
  · rintro ⟨member, proper⟩
    exact ⟨_, mem_filter.mpr ⟨member, decide_eq_true proper⟩, rfl⟩

theorem id_assembleCalls_sublist (calls : List PartialToolCall) :
    ((assembleCalls calls).map AssembledToolCall.id).Sublist (calls.map PartialToolCall.id) := by
  rw [assembleCalls, map_map]
  exact filter_sublist.map PartialToolCall.id

theorem nodup_collectEvents {turn : Nat} {state after : Aggregation}
    (distinct : (state.partialCalls.map PartialToolCall.id).Nodup)
    (collected : collectEvents cancelled turn state items = .ok after) :
    (after.partialCalls.map PartialToolCall.id).Nodup := by
  induction items generalizing turn state with
  | nil =>
    cases collected
    exact distinct
  | cons item items ih =>
    unfold collectEvents at collected
    split_ifs at collected with stopped
    · cases collected
      exact distinct
    · cases item with
      | error error => cases collected
      | ok event =>
        cases event with
        | tokenDelta text =>
          refine ih ?_ collected
          exact distinct
        | toolCallDelta id name chunk => exact ih (nodup_extendCall distinct ..) collected
        | usage usage =>
          refine ih ?_ collected
          exact distinct
        | done stopReason =>
          cases collected
          exact distinct
        | error message => cases collected

theorem nodup_aggregateSync {agg : AggregatedOutput}
    (aggregated : aggregateSync cancelled items = .ok agg) : (agg.toolCalls.map AssembledToolCall.id).Nodup := by
  rw [aggregateSync] at aggregated
  cases collected : collectEvents cancelled 0 ⟨.empty, []⟩ items with
  | error error =>
    rw [collected] at aggregated
    cases aggregated
  | ok state =>
    rw [collected] at aggregated
    cases aggregated
    have none : (([] : List PartialToolCall).map PartialToolCall.id).Nodup := nodup_nil
    exact (id_assembleCalls_sublist _).nodup (nodup_collectEvents none collected)

def StreamEvent.error? : StreamEvent → Option String
  | .error message => some message
  | _ => none

/-- The two lists of events give the same texts, the same token counts and the same errors, each in the
same order, and for each ID the same pieces of its call. -/
structure SameParts (first second : List StreamEvent) : Prop where
  texts : first.filterMap text? = second.filterMap text?
  usages : first.filterMap usage? = second.filterMap usage?
  errors : first.filterMap error? = second.filterMap error?
  pieces : ∀ id : String,
    (first.filterMap callDelta?).filter (·.id = id) =
      (second.filterMap callDelta?).filter (·.id = id)

def ByFirstPiece (events : List StreamEvent) (calls : List AssembledToolCall) : Prop :=
  let ids := (events.filterMap callDelta?).map CallDelta.id
  calls.Pairwise fun one other => ids.idxOf one.id < ids.idxOf other.id

/-- One output is what the first events come to and the other what the second do, with the same contents. -/
structure Alike (first second : List StreamEvent) (one other : AggregatedOutput) : Prop where
  text : one.text = other.text
  usage : one.usage = other.usage
  stopReason : one.stopReason = other.stopReason
  calls : one.toolCalls.Perm other.toolCalls
  firstOrder : ByFirstPiece first one.toolCalls
  secondOrder : ByFirstPiece second other.toolCalls

/-- `aggregate_sync` of a reply that nobody cancels and that ends with this reason. -/
def aggregateReply (events : List StreamEvent) (reason : StopReason) : Except NuraError AggregatedOutput :=
  aggregateSync (fun _ => false) ((events ++ [done reason]).map .ok)

variable {first second events : List StreamEvent}

theorem aggregateSync_error {before after : List StreamEvent}
    (ordinary : ∀ event ∈ before, Ordinary event) (message : String) :
    aggregateSync (fun _ => false) ((before ++ error message :: after).map .ok) =
      .error (.provider "stream" message) := by
  rw [aggregateSync, map_append, collectEvents_ordinary ordinary]
  simp [collectEvents, handleEvent]

theorem ordinary_of_no_errors (unfinished : ∀ reason, done reason ∉ events)
    (noErrors : events.filterMap error? = []) : ∀ event ∈ events, Ordinary event := by
  intro event member
  cases event with
  | done reason => exact absurd member (unfinished reason)
  | error message => exact absurd (filterMap_eq_nil_iff.mp noErrors _ member) (by simp [error?])
  | _ => trivial

theorem aggregateSync_first_error (unfinished : ∀ reason, done reason ∉ events) {message : String}
    {messages : List String} (errors : events.filterMap error? = message :: messages)
    (rest : List StreamEvent) :
    aggregateSync (fun _ => false) ((events ++ rest).map .ok) = .error (.provider "stream" message) := by
  obtain ⟨before, event, after, rfl, quiet, isError, -⟩ := filterMap_eq_cons_iff.mp errors
  cases event with
  | error said =>
    cases isError
    have ordinary : ∀ event ∈ before, Ordinary event :=
      ordinary_of_no_errors (fun reason member => unfinished reason (mem_append_left _ member))
        (filterMap_eq_nil_iff.mpr quiet)
    rw [append_assoc, cons_append]
    exact aggregateSync_error ordinary message
  | _ => cases isError

theorem pairwise_assemble (deltas : List CallDelta) :
    ((assemble [] deltas).map PartialToolCall.id).Pairwise fun one other =>
      (deltas.map CallDelta.id).idxOf one < (deltas.map CallDelta.id).idxOf other := by
  induction deltas using List.reverseRecOn with
  | nil => exact List.Pairwise.nil
  | append_singleton deltas delta ih =>
    have step : assemble [] (deltas ++ [delta]) =
        extendCall delta.id delta.name delta.chunk (assemble [] deltas) := by
      simp [assemble]
    have named : ∀ id ∈ (assemble [] deltas).map PartialToolCall.id, id ∈ deltas.map CallDelta.id := by
      intro id member
      simpa using id_mem_assemble.mp member
    rw [step, id_extendCall, map_append]
    -- The IDs that are there keep their places.
    have old : ((assemble [] deltas).map PartialToolCall.id).Pairwise fun one other =>
        (deltas.map CallDelta.id ++ [delta].map CallDelta.id).idxOf one <
          (deltas.map CallDelta.id ++ [delta].map CallDelta.id).idxOf other := by
      refine ih.imp_of_mem fun isFirst isSecond before => ?_
      rwa [idxOf_append_of_mem (named _ isFirst), idxOf_append_of_mem (named _ isSecond)]
    split
    · exact old
    · rename_i fresh
      refine pairwise_append.mpr ⟨old, pairwise_singleton .., fun one isOld other isNew => ?_⟩
      rw [mem_singleton.mp isNew, idxOf_append_of_mem (named _ isOld),
        idxOf_append_of_notMem fun member => fresh (id_mem_assemble.mpr (.inr member))]
      exact Nat.lt_add_right _ (idxOf_lt_length_of_mem (named _ isOld))

theorem byFirstPiece (events : List StreamEvent) :
    ByFirstPiece events (assembleCalls (assemble [] (events.filterMap callDelta?))) := by
  have ordered := (pairwise_assemble (events.filterMap callDelta?)).sublist
    (id_assembleCalls_sublist _)
  rwa [pairwise_map] at ordered

theorem nodup_assembleCalls (deltas : List CallDelta) : (assembleCalls (assemble [] deltas)).Nodup :=
  ((id_assembleCalls_sublist _).nodup (nodup_assemble_nil deltas)).of_map _

theorem assembleCalls_perm {deltas others : List CallDelta}
    (pieces : ∀ id : String, deltas.filter (·.id = id) = others.filter (·.id = id)) :
    (assembleCalls (assemble [] deltas)).Perm (assembleCalls (assemble [] others)) := by
  refine (perm_ext_iff_of_nodup (nodup_assembleCalls _) (nodup_assembleCalls _)).mpr fun call => ?_
  rw [mem_assembleCalls, mem_assembleCalls, mem_iff_lookup (nodup_assemble_nil _),
    mem_iff_lookup (nodup_assemble_nil _), lookup_assemble, lookup_assemble, pieces]

/-- Replies that tell the same about each thing are assembled alike, up to the order in which their tool
calls begin. -/
theorem aggregateSync_interleaving (reason : StopReason)
    (firstUnfinished : ∀ reason, StreamEvent.done reason ∉ first)
    (secondUnfinished : ∀ reason, StreamEvent.done reason ∉ second) (same : SameParts first second) :
    (∃ error, aggregateReply first reason = .error error ∧ aggregateReply second reason = .error error) ∨
      ∃ one other, aggregateReply first reason = .ok one ∧ aggregateReply second reason = .ok other ∧
        Alike first second one other := by
  cases errors : first.filterMap error? with
  | cons message messages =>
    have alsoErrors := same.errors.symm.trans errors
    exact .inl ⟨_, aggregateSync_first_error firstUnfinished errors _,
      aggregateSync_first_error secondUnfinished alsoErrors _⟩
  | nil =>
    have firstOrdinary := ordinary_of_no_errors firstUnfinished errors
    have secondOrdinary := ordinary_of_no_errors secondUnfinished (same.errors.symm.trans errors)
    refine .inr ⟨_, _, aggregateSync_complete firstOrdinary reason,
      aggregateSync_complete secondOrdinary reason, ?_⟩
    exact
      { text := congrArg String.join same.texts
        usage := congrArg (mergeAll none) same.usages
        stopReason := rfl
        calls := assembleCalls_perm same.pieces
        firstOrder := byFirstPiece first
        secondOrder := byFirstPiece second }

def callsInTurn : List StreamEvent :=
  [.tokenDelta "Let me look.", .toolCallDelta "a" (some "read") "1", .toolCallDelta "a" none "2",
    .toolCallDelta "b" (some "list") "3"]

def callsAtOnce : List StreamEvent :=
  [.toolCallDelta "a" (some "read") "1", .toolCallDelta "b" (some "list") "3",
    .toolCallDelta "a" none "2", .tokenDelta "Let me look."]

theorem sameParts_calls : SameParts callsInTurn callsAtOnce where
  texts := rfl
  usages := rfl
  errors := rfl
  pieces id := by
    by_cases isA : "a" = id
    · subst isA
      decide
    · simp [callsInTurn, callsAtOnce, callDelta?, filterMap_cons, filter_cons, isA]

theorem aggregateSync_calls_interleaved :
    (∃ error, aggregateReply callsInTurn .toolCall = .error error ∧
      aggregateReply callsAtOnce .toolCall = .error error) ∨
    ∃ one other, aggregateReply callsInTurn .toolCall = .ok one ∧
      aggregateReply callsAtOnce .toolCall = .ok other ∧ Alike callsInTurn callsAtOnce one other :=
  aggregateSync_interleaving .toolCall (fun reason => by simp [callsInTurn])
    (fun reason => by simp [callsAtOnce]) sameParts_calls

open Foundation (Machine.run)
open Threads

theorem drain_ended (c : Collector) (turn : Nat) (items : List Item) :
    (c.drain items).ended = some (collectEvents (fun _ => false) turn c.state items) := by
  induction items generalizing c turn with
  | nil => rfl
  | cons item items ih =>
    cases item with
    | error error => rfl
    | ok event =>
      cases event with
      | done | error => rfl
      | _ => exact ih _ (turn + 1)

theorem drain_returned (items : List Item) :
    (Collector.start.drain items).returned = some (aggregateSync (fun _ => false) items) := by
  rw [Collector.returned, drain_ended _ 0, aggregateSync, show Collector.start.state = ⟨.empty, []⟩ from rfl]
  cases collectEvents (fun _ => false) 0 ⟨.empty, []⟩ items with
  | error error => rfl
  | ok state => rfl

/-! ### What the threads have still to do -/

def Producer.held : Producer → List Item
  | .sending item => [item]
  | _ => []

def Threads.pending (t : Threads) : List Item := t.queue ++ t.producer.held ++ t.events

/-- The threads are on their way to what `aggregate_sync` makes of the items. -/
structure Follows (items : List Item) (t : Threads) : Prop where
  undisturbed : t.cancelled = false
  unended : t.waiting = true → t.consumer.ended = none
  drained : t.consumer.ended = none → t.producer = .ended → t.events = []
  ahead : t.consumer.ended = none → t.consumer.drain t.pending = Collector.start.drain items
  done : t.consumer.ended ≠ none → t.consumer = Collector.start.drain items

variable {items : List Item} {depth : Nat} {t next last : Threads} {act : Act} {acts : List Act}

theorem Follows.start (items : List Item) : Follows items (.start items) where
  undisturbed := rfl
  unended _ := rfl
  drained _ := nofun
  ahead _ := rfl
  done ended := absurd rfl ended

theorem Follows.received (follows : Follows items t) {item : Item} {queue : List Item}
    (waits : t.waiting = true) (front : t.queue = item :: queue) :
    Follows items { t with queue, consumer := t.consumer.handle item, waiting := false } := by
  have ahead := follows.ahead (follows.unended waits)
  rw [pending, front, cons_append, cons_append, Collector.drain] at ahead
  refine ⟨follows.undisturbed, nofun, fun _ => follows.drained (follows.unended waits),
    fun going => ?_, fun ended => ?_⟩
  · rwa [if_neg (by rw [going]; exact Bool.false_ne_true)] at ahead
  · rwa [if_pos (Option.isSome_iff_ne_none.mpr ended)] at ahead

def Producer.work : Producer → Nat
  | .looping => 1
  | .sending _ => 4
  | .ended => 0

/-- A bound on the steps that are left: each item is taken, sent, waited for and received. -/
def Threads.work (t : Threads) : Nat :=
  4 * t.events.length + t.producer.work + 2 * t.queue.length +
    if t.consumer.ended.isSome then 0 else if t.waiting then 1 else 2

theorem follows_of_step (follows : Follows items t) (undisturbed : act.Undisturbed)
    (steps : t.step depth act = some next) : Follows items next ∧ next.work < t.work := by
  cases act with
  | take =>
    simp only [step] at steps
    split at steps
    · rename_i looping noEvents
      cases steps
      refine ⟨{ follows with drained := fun _ _ => noEvents, ahead := fun going => ?_ }, ?_⟩
      · rw [← follows.ahead going]
        simp [pending, looping, Producer.held]
      · simp [work, looping, Producer.work]
    · rename_i item events looping front
      cases steps
      have goesOn : (if t.cancelled then Producer.ended else .sending item) = .sending item := by
        rw [follows.undisturbed]
        rfl
      rw [goesOn]
      refine ⟨{ follows with drained := by simp, ahead := fun going => ?_ }, ?_⟩
      · rw [← follows.ahead going]
        simp [pending, looping, front, Producer.held]
      · simp only [work, looping, front, Producer.work, length_cons]
        omega
    · cases steps
  | send =>
    simp only [step] at steps
    split at steps
    · rename_i item sending
      split_ifs at steps with ended room
      · cases steps
        have drained : t.consumer.ended ≠ none := Option.isSome_iff_ne_none.mp ended
        refine ⟨{ follows with
          drained := fun going => absurd going drained
          ahead := fun going => absurd going drained }, ?_⟩
        simp [work, sending, Producer.work]
      · cases steps
        refine ⟨{ follows with drained := by simp, ahead := fun going => ?_ }, ?_⟩
        · rw [← follows.ahead going]
          simp [pending, sending, Producer.held]
        · simp only [work, sending, Producer.work, length_append, length_singleton]
          omega
    · cases steps
  | check =>
    simp only [step] at steps
    split_ifs at steps with busy isCancelled
    · exact absurd isCancelled (by simp [follows.undisturbed])
    · cases steps
      obtain ⟨going, notWaiting⟩ := not_or.mp busy
      exact ⟨{ follows with unended := fun _ => by simpa using going }, by simp [work, going, notWaiting]⟩
  | receive =>
    simp only [step] at steps
    split at steps
    · rename_i item queue waits front
      cases steps
      refine ⟨follows.received waits front, ?_⟩
      simp only [work, follows.unended waits, waits, front, length_cons, Option.isSome_none,
        Bool.false_eq_true, if_false, if_true]
      split <;> omega
    · rename_i waits noItems ended
      cases steps
      have going := follows.unended waits
      have ahead := follows.ahead going
      rw [pending, noItems, ended, follows.drained going ended] at ahead
      exact ⟨⟨follows.undisturbed, by simp, by simp [Collector.leave], by simp [Collector.leave], fun _ => ahead⟩,
        by simp [work, going, waits, Collector.leave]⟩
    · cases steps
  | timeOut => exact absurd rfl undisturbed.1
  | cancel => exact absurd rfl undisturbed.2

theorem exists_step (follows : Follows items t) (going : t.consumer.ended = none) (depth : Nat) :
    ∃ act, act.Undisturbed ∧ (t.step depth act).isSome := by
  cases waits : t.waiting with
  | false => exact ⟨.check, ⟨nofun, nofun⟩, by simp [step, going, waits, follows.undisturbed]⟩
  | true =>
    cases front : t.queue with
    | cons item queue => exact ⟨.receive, ⟨nofun, nofun⟩, by simp [step, waits, front]⟩
    | nil =>
      cases producer : t.producer with
      | ended => exact ⟨.receive, ⟨nofun, nofun⟩, by simp [step, waits, front, producer]⟩
      | sending item =>
        have room : 0 < max depth 1 := by omega
        exact ⟨.send, ⟨nofun, nofun⟩, by simp [step, producer, going, front, room]⟩
      | looping =>
        refine ⟨.take, ⟨nofun, nofun⟩, ?_⟩
        cases events : t.events <;> simp [step, producer, events]

theorem follows_of_run (follows : Follows items t) (undisturbed : ∀ act ∈ acts, act.Undisturbed)
    (runs : Machine.run (step depth) t acts = some last) :
    Follows items last ∧ acts.length + last.work ≤ t.work := by
  induction acts generalizing t with
  | nil =>
    cases runs
    exact ⟨follows, by simp⟩
  | cons act acts ih =>
    obtain ⟨first, others⟩ := forall_mem_cons.mp undisturbed
    obtain ⟨next, steps, rest⟩ := Foundation.Machine.run_cons_eq_some.mp runs
    obtain ⟨follows, less⟩ := follows_of_step follows first steps
    obtain ⟨reached, bound⟩ := ih follows others rest
    exact ⟨reached, by rw [length_cons]; omega⟩

/-- The threads take boundedly many steps and can go on until `aggregate` returns, and then it returns
what `aggregate_sync` does, after the same calls of `on_token`. -/
theorem aggregate_agrees (items : List Item) (queueDepth : Nat) (undisturbed : ∀ act ∈ acts, act.Undisturbed)
    (runs : Machine.run (Threads.step queueDepth) (.start items) acts = some last) :
    acts.length ≤ 4 * items.length + 3 ∧
      (last.consumer.returned = none → ∃ act, act.Undisturbed ∧ (last.step queueDepth act).isSome) ∧
      ∀ result, last.consumer.returned = some result →
        result = aggregateSync (fun _ => false) items ∧
          last.consumer.tokens = (Collector.start.drain items).tokens := by
  obtain ⟨follows, bound⟩ := follows_of_run (Follows.start items) undisturbed runs
  refine ⟨?_, fun going => exists_step follows (by simpa [Collector.returned] using going) _, fun result returned => ?_⟩
  · have started : (start items).work = 4 * items.length + 3 := by
      simp [start, work, Producer.work, Collector.start]
    omega
  · have done : last.consumer = Collector.start.drain items := by
      refine follows.done fun going => ?_
      rw [Collector.returned, going] at returned
      cases returned
    rw [done, drain_returned] at returned
    exact ⟨(Option.some.inj returned).symm, by rw [done]⟩

def cutShort : List Item := [.ok (.tokenDelta "a"), .ok (.done .maxTokens), .ok (.tokenDelta "b")]

def turns : List Act := [.take, .send, .take, .check, .receive, .send, .check, .receive, .take, .send]

theorem aggregate_agrees_cutShort :
    ∃ last, Machine.run (Threads.step 0) (.start cutShort) turns = some last ∧
      last.consumer.returned = some (aggregateSync (fun _ => false) cutShort) ∧
      last.consumer.tokens = ["a"] := by
  refine ⟨_, rfl, ?_, rfl⟩
  have agrees := aggregate_agrees cutShort 0 (show ∀ act ∈ turns, act.Undisturbed by simp [turns, Act.Undisturbed]) rfl
  exact congrArg some (agrees.2.2 _ rfl).1

end NuraOS.Agent
