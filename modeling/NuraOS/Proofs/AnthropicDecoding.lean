/-
Purpose: What the agent makes of a reply of the Messages API.
-/
import NuraOS.Agent.Providers
import NuraOS.Agent.Turn
import NuraOS.Proofs.Aggregation

namespace NuraOS.Agent.Anthropic

open Foundation
open Foundation.Iteration (Yields)
open Foundation.RustText (EndsSolid White trim stripLead trim_field trim_blank)
open Foundation.Serde (Reader Value)
open MessagesApi List

def interpret (pending : Pending) : Event → Option StreamEvent × Pending
  | .messageStart inputTokens =>
    (if inputTokens.toUInt32 > 0 then some (.usage ⟨inputTokens.toUInt32, 0⟩) else none, pending)
  | .textStart => (none, pending)
  | .toolStart id name => (none, ⟨some id, some name⟩)
  | .textDelta text => (if text = "" then none else some (.tokenDelta text), pending)
  | .inputJsonDelta chunk =>
    (some (.toolCallDelta (pending.toolId.getD "") pending.toolName chunk), { pending with toolName := none })
  | .blockStop => (none, .none)
  | .messageDelta _ outputTokens => (some (.usage ⟨0, outputTokens.toUInt32⟩), pending)
  | .messageStop => (some (.done .endOfTurn), pending)
  | .ping => (none, pending)

def ParseResult.ofOption : Option StreamEvent → ParseResult
  | none => .continues
  | some event => .emit event

variable {fromStr : Reader} {calls : List PartialToolCall} {id name : String}
  {chunks : List String} {blocks : List Block}

theorem parseEvent_carried {data : String} {value : Value} {event : Event}
    (read : fromStr data = .ok value) (carried : event.Carried value) (pending : Pending) :
    parseEvent fromStr event.name data pending =
      (.ofOption (interpret pending event).1, (interpret pending event).2) := by
  unfold parseEvent
  rw [read]
  cases event with
  | messageStart inputTokens =>
    simp only [Event.Carried] at carried
    simp only [Event.name, interpret, tokens, carried, Option.getD_some]
    split <;> rfl
  | textStart =>
    simp only [Event.Carried] at carried
    simp [Event.name, interpret, carried, ParseResult.ofOption]
  | toolStart id name =>
    obtain ⟨kind, isId, isName⟩ := carried
    simp [Event.name, interpret, kind, isId, isName, ParseResult.ofOption]
  | textDelta text =>
    obtain ⟨kind, isText⟩ := carried
    simp only [Event.name, interpret, kind, isText, Option.getD_some]
    split <;> rfl
  | inputJsonDelta chunk =>
    obtain ⟨kind, isChunk⟩ := carried
    simp only [Event.name, interpret, kind, isChunk, Option.getD_some]
    rfl
  | blockStop => rfl
  | messageDelta stopReason outputTokens =>
    simp only [Event.name, interpret, tokens, carried.2, Option.getD_some]
    rfl
  | messageStop =>
    have absent : value.index "message_stop" = .null := Value.index_of_get_none carried
    simp only [Event.name, interpret, absent, Value.index_null, Value.asStr_null, Option.getD_none]
    rfl
  | ping => rfl

theorem endsSolid_name (event : Event) : EndsSolid event.name := by
  unfold Event.name
  split <;> decide

theorem append_ne_empty {lead : String} (named : lead ≠ "") (text : String) : lead ++ text ≠ "" :=
  fun empty => named (String.append_eq_empty_iff.mp empty).1

section Reading

variable (fromStr : Reader) (pending : Pending) (taken : Nat)

variable {line padding data : String}

theorem scan_blank (white : White line) (eventType : String) (reads : List (Except String String)) :
    scan fromStr none pending eventType "" taken (.ok (line ++ "\n") :: reads) =
      scan fromStr none pending eventType "" (taken + 1) reads := by
  rw [scan, trim_blank white.newline, if_pos rfl, if_pos rfl]

theorem scan_blanks {lines : List String} (white : ∀ line ∈ lines, White line) (eventType : String)
    (reads : List (Except String String)) :
    scan fromStr none pending eventType "" taken (lines.map (fun line => .ok (line ++ "\n")) ++ reads) =
      scan fromStr none pending eventType "" (taken + lines.length) reads := by
  induction lines generalizing taken with
  | nil => rfl
  | cons line lines ih =>
    obtain ⟨here, rest⟩ := forall_mem_cons.mp white
    rw [map_cons, cons_append, scan_blank fromStr pending taken here, ih _ rest,
      length_cons, Nat.add_right_comm, Nat.add_assoc]

theorem scan_name {name : String} (solid : EndsSolid name)
    (white : White padding) (eventType dataLine : String) (reads : List (Except String String)) :
    scan fromStr none pending eventType dataLine taken (.ok ("event: " ++ name ++ padding ++ "\n") :: reads) =
      scan fromStr none pending name dataLine (taken + 1) reads := by
  have trimmed : trim ("event: " ++ name ++ padding ++ "\n") = "event: " ++ name :=
    trim_field (by decide) solid white
  rw [scan, trimmed, if_neg (append_ne_empty (by decide) name)]
  simp only [RustText.stripLead_append]

theorem scan_data (solid : EndsSolid data)
    (white : White padding) (eventType dataLine : String) (reads : List (Except String String)) :
    scan fromStr none pending eventType dataLine taken (.ok ("data: " ++ data ++ padding ++ "\n") :: reads) =
      scan fromStr none pending eventType data (taken + 1) reads := by
  have other : stripLead "event: " ("data: " ++ data) = none := by
    rw [stripLead, String.toList_append]
    rfl
  have trimmed : trim ("data: " ++ data ++ padding ++ "\n") = "data: " ++ data :=
    trim_field (by decide) solid white
  rw [scan, trimmed, if_neg (append_ne_empty (by decide) data)]
  simp only [RustText.stripLead_append, other]

def deliver (result : Option StreamEvent) (reads : List (Except String String)) : Option Item × AnthropicStream :=
  match result with
  | none => scan fromStr none pending "" "" taken reads
  | some (.done stopReason) => (some (.ok (.done stopReason)), ⟨reads, taken, true, pending⟩)
  | some event => (some (.ok event), ⟨reads, taken, false, pending⟩)

theorem scan_dispatch (white : White line) (given : data ≠ "") (eventType : String)
    {result : Option StreamEvent} {after : Pending}
    (parsed : parseEvent fromStr eventType data pending = (.ofOption result, after))
    (reads : List (Except String String)) :
    scan fromStr none pending eventType data taken (.ok (line ++ "\n") :: reads) =
      deliver fromStr after (taken + 1) result reads := by
  rw [scan, trim_blank white.newline, if_pos rfl, if_neg given, parsed]
  cases result with
  | none => exact if_neg Bool.false_ne_true
  | some event => cases event <;> rfl

end Reading

/-- What the stream says for a sequence of events, with a block that is open before it. -/
def decode (pending : Pending) : List Event → List StreamEvent
  | [] => [.done .endOfTurn]
  | event :: events =>
    followedBy (interpret pending event).1 (decode (interpret pending event).2 events)

theorem next_live (fromStr : Reader) (reads : List (Except String String)) (taken : Nat) (pending : Pending) :
    AnthropicStream.next fromStr none ⟨reads, taken, false, pending⟩ =
      scan fromStr none pending "" "" taken reads := rfl

theorem tells_of_deliver {stream : AnthropicStream} {pending : Pending} {taken : Nat}
    {result : Option StreamEvent} {reads : List (Except String String)}
    (answer : stream.next fromStr none = deliver fromStr pending taken result reads) :
    Tells (AnthropicStream.next fromStr none) stream result ⟨reads, taken, false, pending⟩ := by
  cases result with
  | none => exact answer
  | some event =>
    cases event with
    | done stopReason =>
      refine ⟨?_, ?_⟩
      · rw [answer]
        rfl
      · rw [answer]
        rfl
    | _ => exact answer

theorem yields_sent {events : List Event} {lines : List String}
    (sent : Sent fromStr events lines) (taken : Nat) (pending : Pending) :
    Yields (AnthropicStream.next fromStr none)
      ⟨lines.map fun line => .ok (line ++ "\n"), taken, false, pending⟩
      ((decode pending events).map .ok) := by
  induction sent generalizing taken pending with
  | nil => exact ⟨rfl, rfl⟩
  | blank white _ ih =>
    refine Yields.congr ?_ (ih (taken + 1) pending)
    rw [map_cons, next_live, next_live, scan_blank fromStr pending taken white]
  | @event events lines event value data nameEnd dataEnd close between whiteName whiteData whiteClose
      whiteBetween solid read carried _ ih =>
      have given : data ≠ "" := by
        rintro rfl
        cases solid
      have answer : AnthropicStream.next fromStr none
          ⟨(("event: " ++ event.name ++ nameEnd) :: between ++ ("data: " ++ data ++ dataEnd) :: close ::
              lines).map fun line => .ok (line ++ "\n"), taken, false, pending⟩ =
            deliver fromStr (interpret pending event).2 (taken + 1 + between.length + 1 + 1)
              (interpret pending event).1 (lines.map fun line => .ok (line ++ "\n")) := by
        rw [next_live, cons_append, map_cons, map_append, map_cons, map_cons,
          scan_name fromStr pending taken (endsSolid_name event) whiteName,
          scan_blanks fromStr pending _ whiteBetween, scan_data fromStr pending _ solid whiteData,
          scan_dispatch fromStr pending _ whiteClose given _ (parseEvent_carried read carried pending)]
      exact (tells_of_deliver answer).yields (ih _ _)

theorem decode_filter_ping (pending : Pending) (events : List Event) :
    decode pending (events.filter (· ≠ .ping)) = decode pending events := by
  induction events generalizing pending with
  | nil => rfl
  | cons event events ih =>
    by_cases ping : event = .ping
    · rw [filter_cons_of_neg (by simpa using ping), ih, ping]
      rfl
    · rw [filter_cons_of_pos (by simpa using ping), decode, decode, ih]

def callDeltas (id name : String) : List String → List StreamEvent
  | [] => []
  | chunk :: chunks =>
    .toolCallDelta id (some name) chunk :: chunks.map fun chunk => .toolCallDelta id none chunk

def blockEvents : Block → List StreamEvent
  | .text deltas => (deltas.filter (· ≠ "")).map .tokenDelta
  | .toolUse id name chunks => callDeltas id name chunks

theorem decode_textDeltas (pending : Pending) (deltas : List String) (events : List Event) :
    decode pending (deltas.map .textDelta ++ events) =
      (deltas.filter (· ≠ "")).map .tokenDelta ++ decode pending events := by
  induction deltas with
  | nil => rfl
  | cons delta deltas ih =>
    rw [map_cons, cons_append, decode, interpret, ih]
    by_cases empty : delta = ""
    · rw [if_pos empty, filter_cons_of_neg (by simpa using empty)]
      rfl
    · rw [if_neg empty, filter_cons_of_pos (by simpa using empty)]
      rfl

theorem decode_inputDeltas (id : String) (chunks : List String) (events : List Event) :
    decode ⟨some id, none⟩ (chunks.map .inputJsonDelta ++ events) =
      chunks.map (fun chunk => .toolCallDelta id none chunk) ++ decode ⟨some id, none⟩ events := by
  induction chunks with
  | nil => rfl
  | cons chunk chunks ih =>
    rw [map_cons, cons_append, decode, interpret, ih]
    rfl

theorem decode_block (block : Block) (events : List Event) :
    decode .none (block.events ++ events) = blockEvents block ++ decode .none events := by
  cases block with
  | text deltas =>
    rw [Block.events, cons_append, cons_append, append_assoc, decode]
    exact decode_textDeltas .none deltas _
  | toolUse id name chunks =>
    rw [Block.events, cons_append, cons_append, append_assoc, decode]
    cases chunks with
    | nil => rfl
    | cons chunk chunks =>
      exact congrArg (List.cons _) (decode_inputDeltas id chunks _)

theorem decode_blocks (blocks : List Block) (events : List Event) :
    decode .none (blocks.flatMap Block.events ++ events) =
      blocks.flatMap blockEvents ++ decode .none events := by
  induction blocks with
  | nil => rfl
  | cons block blocks ih =>
    rw [flatMap_cons, append_assoc, decode_block, ih, flatMap_cons,
      append_assoc]

def replyEvents (reply : Reply) : List StreamEvent :=
  (interpret .none (.messageStart reply.inputTokens)).1.toList ++ reply.blocks.flatMap blockEvents ++
    [.usage ⟨0, reply.outputTokens.toUInt32⟩]

theorem decode_reply (reply : Reply) :
    decode .none reply.events = replyEvents reply ++ [.done .endOfTurn] := by
  rw [Reply.events, cons_append, decode, interpret, decode_blocks]
  have last : decode .none [.messageDelta reply.stopReason reply.outputTokens, .messageStop] =
      [.usage ⟨0, reply.outputTokens.toUInt32⟩, .done .endOfTurn] := rfl
  rw [last, replyEvents, interpret]
  split <;> simp [followedBy]

theorem ordinary_replyEvents (reply : Reply) : ∀ event ∈ replyEvents reply, Ordinary event := by
  intro event member
  simp only [replyEvents, mem_append, Option.mem_toList, mem_flatMap, mem_singleton] at member
  rcases member with (starts | ⟨block, -, inside⟩) | rfl
  · simp only [interpret, Option.ite_none_right_eq_some, Option.some.injEq] at starts
    rw [← starts.2]
    trivial
  · rcases block with deltas | ⟨id, name, _ | ⟨chunk, chunks⟩⟩
    · obtain ⟨text, -, rfl⟩ := mem_map.mp inside
      trivial
    · cases inside
    · rcases mem_cons.mp inside with rfl | inside
      · trivial
      · obtain ⟨text, -, rfl⟩ := mem_map.mp inside
        trivial
  · trivial

def callPieces : Block → List CallDelta
  | .text _ => []
  | .toolUse _ _ [] => []
  | .toolUse id name (chunk :: chunks) => ⟨id, some name, chunk⟩ :: chunks.map fun chunk => ⟨id, none, chunk⟩

theorem filterMap_callDelta?_block (block : Block) :
    (blockEvents block).filterMap StreamEvent.callDelta? = callPieces block := by
  rcases block with deltas | ⟨id, name, _ | ⟨chunk, chunks⟩⟩ <;>
    simp [blockEvents, callDeltas, callPieces, StreamEvent.callDelta?, Function.comp_def]

theorem filterMap_text?_block (block : Block) :
    (blockEvents block).filterMap StreamEvent.text? = block.deltas.filter (· ≠ "") := by
  rcases block with deltas | ⟨id, name, _ | ⟨chunk, chunks⟩⟩ <;>
    simp [blockEvents, callDeltas, Block.deltas, StreamEvent.text?, Function.comp_def, filterMap_cons]

theorem filterMap_usage?_block (block : Block) :
    (blockEvents block).filterMap StreamEvent.usage? = [] := by
  rcases block with deltas | ⟨id, name, _ | ⟨chunk, chunks⟩⟩ <;>
    simp [blockEvents, callDeltas, StreamEvent.usage?, Function.comp_def, filterMap_cons]

theorem filterMap_start {kept : Type} (pick : StreamEvent → Option kept) (quiet : ∀ usage, pick (.usage usage) = none)
    (reply : Reply) :
    (replyEvents reply).filterMap pick = reply.blocks.flatMap fun block => (blockEvents block).filterMap pick := by
  have first : (interpret .none (.messageStart reply.inputTokens)).1.toList.filterMap pick = [] := by
    rw [interpret]
    split
    · exact filterMap_cons_none (quiet _)
    · rfl
  rw [replyEvents, filterMap_append, filterMap_append, first, filterMap_flatMap,
    filterMap_cons_none (quiet _), filterMap_nil, append_nil, nil_append]

theorem replyEvents_text (reply : Reply) :
    String.join ((replyEvents reply).filterMap StreamEvent.text?) = reply.text := by
  rw [filterMap_start StreamEvent.text? fun _ => rfl]
  simp only [filterMap_text?_block]
  rw [← filter_flatMap, join_filter_ne_empty, Reply.text]

theorem replyEvents_callDeltas (reply : Reply) :
    (replyEvents reply).filterMap StreamEvent.callDelta? = reply.blocks.flatMap callPieces := by
  rw [filterMap_start StreamEvent.callDelta? fun _ => rfl]
  simp only [filterMap_callDelta?_block]

theorem replyEvents_usage (reply : Reply) :
    mergeAll none ((replyEvents reply).filterMap StreamEvent.usage?) =
      some ⟨reply.inputTokens.toUInt32, reply.outputTokens.toUInt32⟩ := by
  have blocks : (reply.blocks.flatMap blockEvents).filterMap StreamEvent.usage? = [] := by
    rw [filterMap_flatMap]
    simp only [filterMap_usage?_block]
    exact flatMap_eq_nil_iff.mpr fun _ _ => rfl
  rw [replyEvents, filterMap_append, filterMap_append, blocks, append_nil, interpret]
  by_cases counted : reply.inputTokens.toUInt32 > 0
  · have kept : (if reply.outputTokens.toUInt32 > 0 then reply.outputTokens.toUInt32 else 0) =
        reply.outputTokens.toUInt32 := by
      split
      · rfl
      · rename_i zero
        exact (UInt32.le_zero_iff.mp (UInt32.not_lt.mp zero)).symm
    rw [if_pos counted]
    change some (mergeUsage (some ⟨_, 0⟩) ⟨0, _⟩) = _
    rw [mergeUsage, kept]
    rfl
  · have zero : reply.inputTokens.toUInt32 = 0 := UInt32.le_zero_iff.mp (UInt32.not_lt.mp counted)
    rw [if_neg counted, zero]
    rfl

/-! ### Tool calls -/

theorem assemble_block (fresh : id ∉ calls.map PartialToolCall.id) (given : chunks ≠ []) :
    assemble calls (callPieces (.toolUse id name chunks)) = calls ++ [⟨id, name, String.join chunks⟩] := by
  obtain ⟨chunk, chunks, rfl⟩ := exists_cons_of_ne_nil given
  -- The pieces after the first one are appended to the call at the end.
  have more : ∀ (chunks : List String) (arguments : String),
      assemble (calls ++ [⟨id, name, arguments⟩]) (chunks.map fun chunk => ⟨id, none, chunk⟩) =
        calls ++ [⟨id, name, arguments ++ String.join chunks⟩] := by
    intro chunks
    induction chunks with
    | nil => simp [assemble]
    | cons chunk chunks ih =>
      intro arguments
      have extended : extendCall id none chunk (calls ++ [⟨id, name, arguments⟩]) =
          calls ++ [⟨id, name, arguments ++ chunk⟩] :=
        extendCall_last ⟨id, name, arguments⟩ fresh none chunk
      have step := ih (arguments ++ chunk)
      rw [String.append_assoc, ← String.join_cons] at step
      rw [← step, ← extended]
      rfl
  have started : extendCall id (some name) chunk calls = calls ++ [⟨id, name, chunk⟩] := by
    rw [extendCall_fresh fresh, PartialToolCall.extend, String.empty_append]
    rfl
  rw [String.join_cons, ← more chunks chunk, ← started]
  rfl

/-- The calls of a reply can be told apart, have a name each and come with at least one delta. -/
def Telling (reply : Reply) : Prop :=
  (∀ id name chunks, Block.toolUse id name chunks ∈ reply.blocks → id ≠ "" ∧ name ≠ "" ∧ chunks ≠ []) ∧
    (reply.toolCalls.map AssembledToolCall.id).Nodup

theorem assemble_blocks
    (given : ∀ id name chunks, Block.toolUse id name chunks ∈ blocks → chunks ≠ [])
    (distinct : (calls.map PartialToolCall.id ++
      (blocks.filterMap Block.call?).map AssembledToolCall.id).Nodup) :
    assemble calls (blocks.flatMap callPieces) =
      calls ++ (blocks.filterMap Block.call?).map fun call => ⟨call.id, call.name, call.argumentsJson⟩ := by
  induction blocks generalizing calls with
  | nil => simp [assemble]
  | cons block blocks ih =>
    have later : ∀ id name chunks, Block.toolUse id name chunks ∈ blocks → chunks ≠ [] :=
      fun id name chunks member => given id name chunks (mem_cons_of_mem _ member)
    have split : assemble calls ((block :: blocks).flatMap callPieces) =
        assemble (assemble calls (callPieces block)) (blocks.flatMap callPieces) := by
      exact foldl_append
    rw [split]
    cases block with
    | text deltas => exact ih later distinct
    | toolUse id name chunks =>
      have isCall : Block.call? (.toolUse id name chunks) = some ⟨id, name, String.join chunks⟩ := rfl
      have fresh : id ∉ calls.map PartialToolCall.id := by
        intro known
        exact (nodup_append.mp distinct).2.2 id known id mem_cons_self rfl
      rw [assemble_block fresh (given id name chunks mem_cons_self),
        ih later, filterMap_cons_some isCall, map_cons, append_assoc]
      · rfl
      · rw [map_append, append_assoc]
        exact distinct

theorem exists_piece (member : id ∈ (blocks.flatMap callPieces).map CallDelta.id) :
    ∃ name chunks, Block.toolUse id name chunks ∈ blocks ∧ chunks ≠ [] := by
  obtain ⟨piece, among, rfl⟩ := mem_map.mp member
  obtain ⟨block, inBlocks, inside⟩ := mem_flatMap.mp among
  rcases block with deltas | ⟨id, name, _ | ⟨chunk, chunks⟩⟩
  · cases inside
  · cases inside
  · have same : piece.id = id := by
      rcases mem_cons.mp inside with rfl | inside
      · rfl
      · obtain ⟨text, -, rfl⟩ := mem_map.mp inside
        rfl
    rw [same]
    exact ⟨name, chunk :: chunks, inBlocks, cons_ne_nil _ _⟩

theorem eq_of_nodup_calls {other : String} {others : List String}
    (distinct : ((blocks.filterMap Block.call?).map AssembledToolCall.id).Nodup)
    (first : Block.toolUse id name chunks ∈ blocks) (second : Block.toolUse id other others ∈ blocks) :
    chunks = others := by
  rw [map_filterMap] at distinct
  have same : Block.toolUse id name chunks = .toolUse id other others :=
    eq_of_nodup_filterMap distinct first second rfl rfl
  exact (Block.toolUse.inj same).2.2

/-- The calls arrive as they were sent when they can be told apart, have a name and come with a delta. -/
theorem assembled_eq_iff (reply : Reply) :
    assembleCalls (assemble [] (reply.blocks.flatMap callPieces)) = reply.toolCalls ↔ Telling reply := by
  constructor
  · intro arrived
    have distinct : (reply.toolCalls.map AssembledToolCall.id).Nodup := by
      rw [← arrived]
      exact (nodup_assemble_nil _).sublist (id_assembleCalls_sublist _)
    refine ⟨fun id name chunks member => ?_, distinct⟩
    have sent : ⟨id, name, String.join chunks⟩ ∈ reply.toolCalls :=
      mem_filterMap.mpr ⟨_, member, rfl⟩
    rw [← arrived] at sent
    obtain ⟨-, named, called⟩ := mem_assembleCalls.mp sent
    refine ⟨named, called, ?_⟩
    have known : id ∈ (assemble [] (reply.blocks.flatMap callPieces)).map PartialToolCall.id :=
      (id_assembleCalls_sublist _).subset (mem_map_of_mem sent)
    rw [id_mem_assemble] at known
    obtain ⟨other, others, inBlocks, given⟩ := exists_piece (known.resolve_left not_mem_nil)
    rw [eq_of_nodup_calls distinct member inBlocks]
    exact given
  · rintro ⟨telling, distinct⟩
    rw [assemble_blocks (fun id name chunks member => (telling id name chunks member).2.2)
      (by simpa [Reply.toolCalls] using distinct), nil_append]
    have kept : ∀ call ∈ reply.toolCalls, call.id ≠ "" ∧ call.name ≠ "" := by
      intro call member
      obtain ⟨block, inBlocks, isCall⟩ := mem_filterMap.mp member
      cases block with
      | text deltas => cases isCall
      | toolUse id name chunks =>
        cases isCall
        exact ⟨(telling id name chunks inBlocks).1, (telling id name chunks inBlocks).2.1⟩
    rw [assembleCalls, filter_map, map_map, filter_eq_self.mpr]
    · exact map_id' reply.toolCalls
    · exact fun call member => decide_eq_true (kept call member)

/-! ### The whole reply -/

def arrived (reply : Reply) : AggregatedOutput where
  text := reply.text
  toolCalls := assembleCalls (assemble [] (reply.blocks.flatMap callPieces))
  usage := some ⟨reply.inputTokens.toUInt32, reply.outputTokens.toUInt32⟩
  stopReason := .endOfTurn
  cancelled := false
  timedOut := false

theorem aggregateSync_reply (reply : Reply) :
    aggregateSync (fun _ => false) ((decode .none reply.events).map .ok) = .ok (arrived reply) := by
  rw [decode_reply, aggregateSync_complete (ordinary_replyEvents reply), replyEvents_text,
    replyEvents_callDeltas, replyEvents_usage, arrived]

theorem denoted_eq_endOfTurn {stopReason : String} :
    denoted stopReason = .endOfTurn ↔ stopReason ≠ "tool_use" ∧ stopReason ≠ "max_tokens" := by
  unfold denoted
  split
  · simp
  · simp
  · rename_i tool limit
    exact iff_of_true rfl ⟨tool, limit⟩

theorem toUInt32_toNat_eq {count : UInt64} : count.toUInt32.toNat = count.toNat ↔ count.toNat < 2 ^ 32 := by
  exact Nat.mod_eq_iff_lt (by decide)

/-- What the agent makes of a reply over a connection: the aggregated output tells what the reply said, and when the
server stopped for its tools, these are the calls that the turn executes. -/
def Understood (fromStr : Reader) (transcript : Transcript fromStr) : Prop :=
  ∃ items output,
    Yields (AnthropicStream.next fromStr none) (.start transcript.input.reads) items ∧
      aggregateSync (fun _ => false) items = .ok output ∧ transcript.reply.Decoded output ∧
      (transcript.reply.stopReason = "tool_use" → requestedCalls output = transcript.reply.toolCalls)

theorem understood_iff (transcript : Transcript fromStr) :
    Understood fromStr transcript ↔ transcript.reply.Decoded (arrived transcript.reply) ∧
      (transcript.reply.stopReason = "tool_use" →
        requestedCalls (arrived transcript.reply) = transcript.reply.toolCalls) := by
  have yields : Yields (AnthropicStream.next fromStr none) (.start transcript.input.reads)
      ((decode .none transcript.reply.events).map .ok) := by
    rw [Transcript.input, RustText.reads_of_lines transcript.single, ← transcript.pings, decode_filter_ping]
    exact yields_sent transcript.sent 0 .none
  have output := aggregateSync_reply transcript.reply
  constructor
  · rintro ⟨items, result, others, aggregated, understood⟩
    rw [others.unique yields, output] at aggregated
    cases aggregated
    exact understood
  · exact fun understood => ⟨_, _, yields, output, understood⟩

/-- A reply is understood when its stop reason means the end of the turn, its counts fit in 32 bits, and its tool
calls can be told apart, have a name and come with at least one delta each. -/
theorem anthropic_decodes_iff (fromStr : Reader) (transcript : Transcript fromStr) :
    Understood fromStr transcript ↔
      (transcript.reply.stopReason ≠ "tool_use" ∧ transcript.reply.stopReason ≠ "max_tokens") ∧
        (transcript.reply.inputTokens.toNat < 2 ^ 32 ∧ transcript.reply.outputTokens.toNat < 2 ^ 32) ∧
        Telling transcript.reply := by
  rw [understood_iff]
  constructor
  · rintro ⟨⟨-, calls, ⟨_, ⟨⟩, prompt, completion⟩, stops⟩, -⟩
    refine ⟨denoted_eq_endOfTurn.mp stops.symm, ⟨?_, ?_⟩, (assembled_eq_iff _).mp calls⟩
    · exact toUInt32_toNat_eq.mp prompt
    · exact toUInt32_toNat_eq.mp completion
  · rintro ⟨ends, ⟨prompt, completion⟩, telling⟩
    refine ⟨⟨rfl, (assembled_eq_iff _).mpr telling, ?_, ?_⟩, ?_⟩
    · exact ⟨_, rfl, toUInt32_toNat_eq.mpr prompt, toUInt32_toNat_eq.mpr completion⟩
    · exact (denoted_eq_endOfTurn.mpr ends).symm
    · exact fun tools => absurd tools ends.1

instance decidableCarried (value : Value) : ∀ event : Event, Decidable (event.Carried value)
  | .messageStart _ | .textStart => inferInstanceAs (Decidable (_ = _))
  | .toolStart .. | .textDelta _ | .inputJsonDelta _ | .messageDelta .. => inferInstanceAs (Decidable (_ ∧ _))
  | .messageStop => inferInstanceAs (Decidable (_ = none))
  | .blockStop | .ping => .isTrue trivial

def plainLines (said : List (Event × String)) : List String :=
  said.flatMap fun (event, data) => ["event: " ++ event.name, "data: " ++ data, ""]

theorem sent_plain {said : List (Event × String)}
    (readable : ∀ entry ∈ said, EndsSolid entry.2 ∧ (Serde.readPlain entry.2).isOk = true ∧
      entry.1.Carried (Serde.plainValue entry.2)) :
    Sent Serde.readPlain (said.map Prod.fst) (plainLines said) := by
  induction said with
  | nil => exact .nil
  | cons entry said ih =>
    obtain ⟨⟨solid, isOk, carried⟩, others⟩ := forall_mem_cons.mp readable
    have blank : White "" := fun _ member => nomatch member
    have between : ∀ line ∈ ([] : List String), White line := fun _ member => nomatch member
    have lines := Sent.event blank blank blank between solid (Serde.readPlain_of_isOk isOk) carried
      (ih others)
    rw [String.append_empty, String.append_empty] at lines
    exact lines

def requestingReply : Reply where
  inputTokens := 5
  blocks := [.toolUse "t1" "time" ["\x7b\x7d"]]
  stopReason := "tool_use"
  outputTokens := 7

def requestingEvents : List (Event × String) :=
  [(.messageStart 5, "\x7b\"message\":\x7b\"usage\":\x7b\"input_tokens\":5\x7d\x7d\x7d"),
    (.toolStart "t1" "time",
      "\x7b\"content_block\":\x7b\"type\":\"tool_use\",\"id\":\"t1\",\"name\":\"time\"\x7d\x7d"),
    (.inputJsonDelta "\x7b\x7d",
      "\x7b\"delta\":\x7b\"type\":\"input_json_delta\",\"partial_json\":\"\x7b\x7d\"\x7d\x7d"),
    (.blockStop, "\x7b\x7d"),
    (.messageDelta "tool_use" 7,
      "\x7b\"delta\":\x7b\"stop_reason\":\"tool_use\"\x7d,\"usage\":\x7b\"output_tokens\":7\x7d\x7d"),
    (.messageStop, "\x7b\"type\":\"message_stop\"\x7d")]

def requesting : Transcript Serde.readPlain where
  reply := requestingReply
  events := requestingEvents.map Prod.fst
  lines := plainLines requestingEvents
  pings := by decide
  sent := sent_plain (by decide +kernel)
  single := by decide +kernel

/-- The request arrives, but as the end of the turn, and the tool is not called. -/
theorem requesting_not_understood :
    (arrived requesting.reply).stopReason = .endOfTurn ∧ requestedCalls (arrived requesting.reply) = [] ∧
      ¬ Understood Serde.readPlain requesting := by
  refine ⟨rfl, rfl, fun understood => ?_⟩
  have stops := ((understood_iff requesting).mp understood).1.2.2.2
  exact absurd stops (by decide)

end NuraOS.Agent.Anthropic
