/-
Purpose: The configuration with its checks, its store (`services/internal/configmgr/`), and runs of the store with
  calls that are cut short.
Trusted boundary: `encoding/json` on configurations and history entries, as far as the laws of `ConfigJson`
  say
-/
import Mathlib.Logic.Equiv.Nat
import NuraOS.Foundation.Codec
import NuraOS.Foundation.Json
import NuraOS.Foundation.SortedMap

namespace NuraOS.ConfigMgr

open Foundation

/-- A `float64`, by its bits. -/
structure Double where
  bits : UInt64
deriving DecidableEq

/-- The comparison `x < 0`: neither a zero nor a NaN is below zero. -/
def Double.negative (x : Double) : Bool :=
  0x8000000000000000 < x.bits ∧ x.bits ≤ 0xfff0000000000000

def Double.finite (x : Double) : Bool :=
  x.bits &&& 0x7ff0000000000000 ≠ 0x7ff0000000000000

/-- `AgentConfig`, inference agent settings. -/
structure AgentConfig where
  modelPath : Bytes
  contextLen : Int64
  threads : Int64

/-- `GatewayConfig`, HTTP gateway settings. -/
structure GatewayConfig where
  port : Int64
  bindLAN : Bool
  rateRPS : Double

/-- `FirewallRule`, a single allow or deny rule. -/
structure FirewallRule where
  action : Bytes
  proto : Bytes
  port : Int64
  src : Bytes

/-- `FirewallConfig`, the ordered rules. -/
structure FirewallConfig where
  rules : List FirewallRule

/-- `RoutingConfig`; the static routes are a map from destination to next hop. -/
structure RoutingConfig where
  defaultGateway : Bytes
  staticRoutes : SortedMap Bytes Bytes

/-- `Config`, the canonical configuration snapshot. -/
structure Config where
  version : Int64
  agent : AgentConfig
  gateway : GatewayConfig
  firewall : FirewallConfig
  routing : RoutingConfig

/-- `Config{}`. -/
def Config.zero : Config :=
  { version := 0
    agent := { modelPath := [], contextLen := 0, threads := 0 }
    gateway := { port := 0, bindLAN := false, rateRPS := ⟨0⟩ }
    firewall := { rules := [] }
    routing := { defaultGateway := [], staticRoutes := { entries := [], sorted := .nil } } }

/-- `DefaultConfig`; the rate is 10. -/
def defaultConfig : Config :=
  { Config.zero with
    version := 1
    agent := { modelPath := [], contextLen := 4096, threads := 4 }
    gateway := { port := 8080, bindLAN := false, rateRPS := ⟨0x4024000000000000⟩ } }

/-- The messages of `Validate`, with the values their texts are made of. -/
inductive Violation where
  /-- `agent.context_len %d is below minimum 512` -/
  | contextLen (value : Int64)
  /-- `agent.threads %d must be >= 0` -/
  | threads (value : Int64)
  /-- `gateway.port %d must be in 1024-65535` -/
  | port (value : Int64)
  /-- `gateway.rate_rps %.2f must be >= 0` -/
  | rateRPS (value : Double)
  /-- `firewall.rules[%d].action %q must be 'allow' or 'deny'` -/
  | ruleAction (index : Nat) (value : Bytes)
  /-- `firewall.rules[%d].proto %q must be tcp/udp/any` -/
  | ruleProto (index : Nat) (value : Bytes)
  /-- `firewall.rules[%d].port %d out of range 0-65535` -/
  | rulePort (index : Nat) (value : Int64)
deriving DecidableEq

def violates (fails : Bool) (violation : Violation) : List Violation :=
  if fails then [violation] else []

def checkRule (index : Nat) (r : FirewallRule) : List Violation :=
  violates (r.action ≠ utf8 "allow" ∧ r.action ≠ utf8 "deny") (.ruleAction index r.action) ++
  violates (r.proto ≠ utf8 "tcp" ∧ r.proto ≠ utf8 "udp" ∧ r.proto ≠ utf8 "any")
    (.ruleProto index r.proto) ++
  violates (r.port < 0 ∨ r.port > 65535) (.rulePort index r.port)

def checkRules : (index : Nat) → List FirewallRule → List Violation
  | _, [] => []
  | index, r :: rules => checkRule index r ++ checkRules (index + 1) rules

/-- `Validate`: all violations, in the order in which they are found. -/
def validate (c : Config) : Except (List Violation) PUnit :=
  let errs :=
    violates (c.agent.contextLen ≠ 0 ∧ c.agent.contextLen < 512) (.contextLen c.agent.contextLen) ++
    violates (c.agent.threads < 0) (.threads c.agent.threads) ++
    violates (c.gateway.port ≠ 0 ∧ (c.gateway.port < 1024 ∨ c.gateway.port > 65535))
      (.port c.gateway.port) ++
    violates c.gateway.rateRPS.negative (.rateRPS c.gateway.rateRPS) ++
    checkRules 0 c.firewall.rules
  if errs.isEmpty then .ok () else .error errs

/-- `HistoryEntry`; the time in nanoseconds. -/
structure HistoryEntry where
  version : Int64
  appliedAt : Int
  snapshot : Config

def isText (bytes : Bytes) : Bool :=
  utf8 (GoJson.toText bytes) = bytes

def Config.isText (c : Config) : Bool :=
  ConfigMgr.isText c.agent.modelPath &&
  c.firewall.rules.all (fun r =>
    ConfigMgr.isText r.action && ConfigMgr.isText r.proto && ConfigMgr.isText r.src) &&
  ConfigMgr.isText c.routing.defaultGateway &&
  c.routing.staticRoutes.entries.all (fun route =>
    ConfigMgr.isText route.1 && ConfigMgr.isText route.2)

def isSpace (byte : UInt8) : Bool :=
  byte = 0x20 ∨ byte = 0x09 ∨ byte = 0x0a ∨ byte = 0x0d

/-- `encoding/json` on the two types of the store: marshalling fails on numbers that are not finite, and
what it writes reads back, up to strings that are not text. -/
structure ConfigJson where
  /-- `json.MarshalIndent` of a configuration; nothing on an error. -/
  marshalIndent : Config → Option Bytes
  /-- `json.Unmarshal` into an empty configuration: what it has become, and whether there was no
  error. -/
  unmarshal : Bytes → Config × Bool
  /-- `json.Marshal` of a history entry; nothing on an error. -/
  marshalEntry : HistoryEntry → Option Bytes
  /-- `Decode` of a decoder that has these bytes left; nothing on an error. -/
  decode : Bytes → Option (HistoryEntry × Bytes)
  marshalIndent_isSome : ∀ c, (marshalIndent c).isSome = c.gateway.rateRPS.finite
  unmarshal_marshalIndent : ∀ c data, c.isText → marshalIndent c = some data →
    unmarshal data = (c, true)
  finite_of_marshalEntry : ∀ e line, marshalEntry e = some line → e.snapshot.gateway.rateRPS.finite
  opens_marshalEntry : ∀ e line, marshalEntry e = some line → line.head? = some 0x7b
  decode_line : ∀ e line rest, e.snapshot.isText → marshalEntry e = some line →
    decode (line ++ rest) = some (e, rest)
  /-- A part of an object is not a value. -/
  decode_part : ∀ e line part, marshalEntry e = some line → part <+: line → part ≠ line →
    decode part = none
  decode_space : ∀ byte rest, isSpace byte → decode (byte :: rest) = decode rest
  decode_shorter : ∀ data e rest, decode data = some (e, rest) → rest.length < data.length

/-- What `os.ReadFile` finds. -/
inductive File where
  | absent
  | unreadable
  | content (data : Bytes)

/-- `nura.json` and `history.jsonl`. -/
structure Files where
  live : File
  history : File

inductive StoreError where
  | invalid (violations : List Violation)
  | readConfig
  | parseConfig
  | marshal
  | readHistory
  | openHistory
  /-- `configmgr: rollback target v%d is invalid: %w` -/
  | rollbackTargetInvalid (version : Int64) (violations : List Violation)
  /-- `configmgr: version %d not found in history` -/
  | versionNotFound (version : Int64)
deriving DecidableEq

variable (json : ConfigJson)

/-- `loadLocked`: the configuration and whether there was no error. The configuration is read once
`json.Unmarshal` has returned. -/
def loadLocked (files : Files) : Config × Bool :=
  match files.live with
  | .absent => (defaultConfig, true)
  | .unreadable => (Config.zero, false)
  | .content data => json.unmarshal data

/-- `More`: something other than a closing bracket follows. -/
def more (data : Bytes) : Bool :=
  match data.dropWhile isSpace with
  | [] => false
  | byte :: _ => byte ≠ 0x5d ∧ byte ≠ 0x7d

/-- The loop over the decoder, which ends at the first entry that does not decode. Each round takes a
byte at least, so that `fuel` never runs out before the bytes do. -/
def decodeEntries : (fuel : Nat) → Bytes → List HistoryEntry
  | 0, _ => []
  | fuel + 1, data =>
    if more data then
      match json.decode data with
      | none => []
      | some (e, rest) => e :: decodeEntries fuel rest
    else
      []

/-- `readHistory`, and `History`. -/
def readHistory (files : Files) : Except StoreError (List HistoryEntry) :=
  match files.history with
  | .absent => .ok []
  | .unreadable => .error .readHistory
  | .content data => .ok (decodeEntries json data.length data)

/-- Where a call is cut short, since a system call fails or the machine stops. -/
inductive Cut where
  | beforeRename
  | afterRename
  /-- After so many bytes of the history line. -/
  | inHistory (written : Nat)
deriving DecidableEq

inductive Outcome where
  /-- It returned nil. -/
  | nil
  | error (err : StoreError)
  | cut
deriving DecidableEq

/-- The line that `appendHistory` writes, without its line break. -/
def historyLine (cfg : Config) (now : Int) : Option Bytes :=
  json.marshalEntry { version := cfg.version, appliedAt := now, snapshot := cfg }

def File.bytes : File → Bytes
  | .content data => data
  | _ => []

/-- `appendHistory`. -/
def appendHistory (cfg : Config) (now : Int) (cut : Option Cut) (files : Files) : Outcome × Files :=
  match historyLine json cfg now with
  | none => (.error .marshal, files)
  | some line =>
    match files.history, cut with
    | .unreadable, _ => (.error .openHistory, files)
    | history, some (.inHistory written) =>
      (.cut, { files with history := .content (history.bytes ++ (line ++ [0x0a]).take written) })
    | history, _ =>
      (.nil, { files with history := .content (history.bytes ++ (line ++ [0x0a])) })

/-- The end of both calls: the new live file is written and renamed, and the history is extended. -/
def install (cfg : Config) (data : Bytes) (now : Int) (cut : Option Cut) (files : Files) :
    Outcome × Files :=
  let renamed := { files with live := .content data }
  match cut with
  | some .beforeRename => (.cut, files)
  | some .afterRename => (.cut, renamed)
  | _ => appendHistory json cfg now cut renamed

/-- The version after the one that is read from the live file; the error is discarded. -/
def nextVersion (files : Files) : Int64 :=
  (loadLocked json files).1.version + 1

/-- `Apply` up to its first write: the configuration and its bytes. -/
def prepareApply (next : Config) (files : Files) : Except StoreError (Config × Bytes) :=
  match validate next with
  | .error errs => .error (.invalid errs)
  | .ok _ =>
    let next := { next with version := nextVersion json files }
    match json.marshalIndent next with
    | none => .error .marshal
    | some data => .ok (next, data)

/-- `RollbackTo` up to its first write. Here the error of marshalling is discarded. -/
def prepareRollback (version : Int64) (files : Files) : Except StoreError (Config × Bytes) :=
  match readHistory json files with
  | .error err => .error err
  | .ok entries =>
    match entries.find? fun e => e.version = version with
    | none => .error (.versionNotFound version)
    | some e =>
      match validate e.snapshot with
      | .error errs => .error (.rollbackTargetInvalid version errs)
      | .ok _ =>
        let target := { e.snapshot with version := nextVersion json files }
        .ok (target, (json.marshalIndent target).getD [])

/-- `Apply`. -/
def apply (next : Config) (now : Int) (cut : Option Cut) (files : Files) : Outcome × Files :=
  match prepareApply json next files with
  | .error err => (.error err, files)
  | .ok (cfg, data) => install json cfg data now cut files

/-- `RollbackTo`. -/
def rollbackTo (version : Int64) (now : Int) (cut : Option Cut) (files : Files) : Outcome × Files :=
  match prepareRollback json version files with
  | .error err => (.error err, files)
  | .ok (cfg, data) => install json cfg data now cut files

/-! ### A plain format that satisfies the laws -/

open Codec List

def listCode {Value : Type} (code : Code UInt8 Value) : Code UInt8 (List Value) :=
  code.list 1 0 (by decide)

def stringCode : Code UInt8 Bytes :=
  listCode Code.symbol

def wordCode : Code UInt8 UInt64 :=
  (Code.nat 1 0 (by decide)).map UInt64.toNat
    (fun value => if value < 2 ^ 64 then some (UInt64.ofNat value) else none) (by
      intro image value
      constructor
      · intro found
        by_cases small : image < 2 ^ 64
        · simp only [small, if_true, Option.some.injEq] at found
          rw [← found, UInt64.toNat_ofNat_of_lt' small]
        · rw [if_neg small] at found
          cases found
      · rintro rfl
        simp [value.toNat_lt])

def intCode : Code UInt8 Int64 :=
  wordCode.map Int64.toUInt64 (fun word => some word.toInt64) (by
    intro word value
    simp only [Option.some.injEq]
    constructor
    · rintro rfl
      simp
    · rintro rfl
      simp)

def timeCode : Code UInt8 Int :=
  (Code.nat 1 0 (by decide)).map Equiv.intEquivNat (fun code => some (Equiv.intEquivNat.symm code)) (by
    intro code value
    simp [Equiv.symm_apply_eq])

def boolCode : Code UInt8 Bool :=
  Code.symbol.map (fun value => if value then 1 else 0)
    (fun byte => if byte = 1 then some true else if byte = 0 then some false else none) (by
      intro byte value
      cases value <;> grind)

def ruleCode : Code UInt8 FirewallRule :=
  (stringCode.pair (stringCode.pair (intCode.pair stringCode))).map
    (fun r => (r.action, r.proto, r.port, r.src))
    (fun (action, proto, port, src) => some { action, proto, port, src }) (by
      rintro ⟨action, proto, port, src⟩ ⟨⟩
      simp)

def routesCode : Code UInt8 (SortedMap Bytes Bytes) :=
  (listCode (stringCode.pair stringCode)).map SortedMap.entries
    (fun entries =>
      if sorted : entries.Pairwise fun first second => first.1 < second.1 then
        some { entries, sorted }
      else none) (by
      rintro entries ⟨others, sorted⟩
      constructor
      · intro found
        by_cases inOrder : entries.Pairwise fun first second => first.1 < second.1
        · simpa [inOrder] using found
        · simp [inOrder] at found
      · rintro rfl
        simp [sorted])

def configCode : Code UInt8 Config :=
  (intCode.pair ((stringCode.pair (intCode.pair intCode)).pair
    ((intCode.pair (boolCode.pair wordCode)).pair
      ((listCode ruleCode).pair (stringCode.pair routesCode))))).map
    (fun c => (c.version, (c.agent.modelPath, c.agent.contextLen, c.agent.threads),
      (c.gateway.port, c.gateway.bindLAN, c.gateway.rateRPS.bits), c.firewall.rules,
      c.routing.defaultGateway, c.routing.staticRoutes))
    (fun (version, (modelPath, contextLen, threads), (port, bindLAN, bits), rules, defaultGateway,
        staticRoutes) =>
      some
        { version
          agent := { modelPath, contextLen, threads }
          gateway := { port, bindLAN, rateRPS := ⟨bits⟩ }
          firewall := { rules }
          routing := { defaultGateway, staticRoutes } }) (by
      rintro ⟨version, ⟨modelPath, contextLen, threads⟩, ⟨port, bindLAN, bits⟩, rules, gateway, routes⟩
        ⟨otherVersion, ⟨_, _, _⟩, ⟨_, _, ⟨_⟩⟩, ⟨_⟩, ⟨_, _⟩⟩
      simp)

def entryCode : Code UInt8 HistoryEntry :=
  (intCode.pair (timeCode.pair configCode)).map (fun e => (e.version, e.appliedAt, e.snapshot))
    (fun (version, appliedAt, snapshot) => some { version, appliedAt, snapshot }) (by
      rintro ⟨version, appliedAt, snapshot⟩ ⟨⟩
      simp)

def writeEntry (e : HistoryEntry) : Option Bytes :=
  if e.snapshot.gateway.rateRPS.finite then some (0x7b :: entryCode.write e) else none

theorem writeEntry_eq_some_iff {e : HistoryEntry} {line : Bytes} :
    writeEntry e = some line ↔
      e.snapshot.gateway.rateRPS.finite ∧ line = 0x7b :: entryCode.write e := by
  simp only [writeEntry, Option.ite_none_right_eq_some, Option.some.injEq]
  exact and_congr_right fun _ => eq_comm

def readEntry (data : Bytes) : Option (HistoryEntry × Bytes) :=
  match data.dropWhile isSpace with
  | 0x7b :: data => (entryCode.read data).toOption
  | _ => none

theorem readEntry_brace (data : Bytes) :
    readEntry (0x7b :: data) = (entryCode.read data).toOption := by
  simp [readEntry, isSpace]

theorem readEntry_part {e : HistoryEntry} {line part : Bytes} (written : writeEntry e = some line)
    (isPart : part <+: line) (proper : part ≠ line) : readEntry part = none := by
  rcases writeEntry_eq_some_iff.mp written with ⟨-, rfl⟩
  rcases isPart with ⟨more, whole⟩
  cases part with
  | nil => simp [readEntry]
  | cons brace part =>
    simp only [cons_append, List.cons.injEq] at whole
    rcases whole with ⟨rfl, whole⟩
    have missing : more ≠ [] := by
      rintro rfl
      simp [← whole] at proper
    rcases entryCode.read_part whole.symm missing with ⟨failure, fails⟩
    simp [readEntry_brace, fails, Except.toOption]

theorem readEntry_shorter {data rest : Bytes} {e : HistoryEntry}
    (reads : readEntry data = some (e, rest)) : rest.length < data.length := by
  have dropped : (data.dropWhile isSpace).length ≤ data.length :=
    (dropWhile_suffix isSpace).length_le
  unfold readEntry at reads
  split at reads
  · rename_i inner shape
    cases read : entryCode.read inner with
    | error failure => simp [read, Except.toOption] at reads
    | ok found =>
      simp only [read, Except.toOption, Option.some.injEq] at reads
      subst reads
      rw [entryCode.read_eq_ok_iff] at read
      simp only [shape, read, length_cons, length_append] at dropped
      omega
  · cases reads

def plainJson : ConfigJson where
  marshalIndent c := if c.gateway.rateRPS.finite then some (configCode.write c) else none
  unmarshal data :=
    match configCode.read data with
    | .ok (c, []) => (c, true)
    | _ => (Config.zero, false)
  marshalEntry := writeEntry
  decode := readEntry
  marshalIndent_isSome := by
    intro c
    cases finite : c.gateway.rateRPS.finite <;> simp
  unmarshal_marshalIndent := by
    intro c data text marshalled
    have read := configCode.read_write c []
    rw [append_nil] at read
    cases finite : c.gateway.rateRPS.finite with
    | false => simp [finite] at marshalled
    | true =>
      simp only [finite, if_true, Option.some.injEq] at marshalled
      simp [← marshalled, read]
  finite_of_marshalEntry := fun _ _ written => (writeEntry_eq_some_iff.mp written).1
  opens_marshalEntry := by
    intro e line written
    simp [(writeEntry_eq_some_iff.mp written).2]
  decode_line := by
    intro e line rest text written
    simp [(writeEntry_eq_some_iff.mp written).2, readEntry_brace, entryCode.read_write,
      Except.toOption]
  decode_part := fun _ _ _ written isPart proper => readEntry_part written isPart proper
  decode_space := by
    intro byte rest space
    simp [readEntry, space]
  decode_shorter := fun _ _ _ reads => readEntry_shorter reads

inductive Request where
  | apply (next : Config)
  | rollbackTo (version : Int64)

/-- What happens to the store: a call, or somebody else leaves another live file. -/
inductive Event where
  | call (request : Request) (now : Int) (cut : Option Cut)
  | tamper (live : File)

/-- The files, the configurations that have been live and those whose call returned nil, in order, and
whether a call has left a part of a line in the history. -/
structure World where
  files : Files
  written : List Config
  succeeded : List Config
  torn : Bool

def World.initial : World :=
  { files := { live := .absent, history := .absent }, written := [], succeeded := [], torn := false }

variable (json : ConfigJson)

def Request.prepare (files : Files) : Request → Except StoreError (Config × Bytes)
  | .apply next => prepareApply json next files
  | .rollbackTo version => prepareRollback json version files

def tears (cfg : Config) (now : Int) : Option Cut → Bool
  | some (.inHistory written) =>
    match historyLine json cfg now with
    | some line => 0 < written ∧ written < line.length
    | none => false
  | _ => false

/-- A call, as `apply` and `rollbackTo` make it. -/
def World.call (world : World) (request : Request) (now : Int) (cut : Option Cut) : World :=
  match request.prepare json world.files with
  | .error _ => world
  | .ok (cfg, data) =>
    let (outcome, files) := install json cfg data now cut world.files
    { files
      written := if cut = some .beforeRename then world.written else world.written ++ [cfg]
      succeeded := if outcome = .nil then world.succeeded ++ [cfg] else world.succeeded
      torn := world.torn || tears json cfg now cut }

def World.step (world : World) : Event → World
  | .call request now cut => world.call json request now cut
  | .tamper live => { world with files := { world.files with live } }

def run (world : World) (events : List Event) : World :=
  events.foldl (World.step json) world

def Request.run (now : Int) (cut : Option Cut) (files : Files) : Request → Outcome × Files
  | .apply next => ConfigMgr.apply json next now cut files
  | .rollbackTo version => ConfigMgr.rollbackTo json version now cut files

/-- The files after a call are those that `apply` or `rollbackTo` leaves. -/
theorem World.files_call (world : World) (request : Request) (now : Int) (cut : Option Cut) :
    (world.call json request now cut).files = (request.run json now cut world.files).2 := by
  have both : request.run json now cut world.files =
      match request.prepare json world.files with
      | .error err => (.error err, world.files)
      | .ok (cfg, data) => install json cfg data now cut world.files := by
    cases request <;> rfl
  rw [both, World.call]
  split <;> rfl

def World.lastVersion (world : World) : Int64 :=
  (world.written.getLast?.map Config.version).getD defaultConfig.version

def World.lastLive (world : World) : File :=
  match world.written.getLast? with
  | none => .absent
  | some cfg => .content ((json.marshalIndent cfg).getD [])

/-- A rollback to the version makes the configuration live again, under a new version. -/
def Restores (files : Files) (cfg : Config) : Prop :=
  ∀ now, ∃ version,
    loadLocked json (rollbackTo json cfg.version now none files).2 = ({ cfg with version }, true)

/-- The versions of the live configurations grow, no version is in the history twice, and the history has
every configuration whose call returned nil, so that a rollback restores it. -/
structure Keeps (world : World) : Prop where
  increasing : (defaultConfig.version :: world.written.map Config.version).Pairwise (· < ·)
  history : ∃ entries, readHistory json world.files = .ok entries ∧
    (entries.map HistoryEntry.version).Nodup ∧
    ∀ cfg ∈ world.succeeded,
      (∃ e ∈ entries, e.version = cfg.version ∧ e.snapshot = cfg) ∧ Restores json world.files cfg

def Request.isText : Request → Bool
  | .apply next => next.isText
  | .rollbackTo _ => true

/-- Before a call the live file is as the store left it, the history has no torn line, and there is a
next version; the call's configuration is text. -/
structure CallOk (world : World) (request : Request) : Prop where
  live : world.files.live = world.lastLive json
  whole : world.torn = false
  room : world.lastVersion ≠ Int64.maxValue
  text : request.isText

def RunOk : World → List Event → Prop
  | _, [] => True
  | world, event :: events =>
    (∀ request now cut, event = .call request now cut → CallOk json world request) ∧
      RunOk (world.step json event) events

section Reading

variable {json}

def encodeLines (lines : List (Bytes × Bool)) : Bytes :=
  lines.flatMap fun line => line.1 ++ if line.2 then [0x0a] else []

def Lines (json : ConfigJson) : List HistoryEntry → List (Bytes × Bool) → Prop :=
  List.Forall₂ fun e line => json.marshalEntry e = some line.1 ∧ e.snapshot.isText

/-- Nothing is decoded from what stands after the whole lines: it is empty or a part of a line. -/
def Tail (json : ConfigJson) (tail : Bytes) : Prop :=
  tail = [] ∨ ∃ e line, json.marshalEntry e = some line ∧ tail <+: line ∧ tail ≠ line

theorem decodeEntries_space {byte : UInt8} (space : isSpace byte) (fuel : Nat) (data : Bytes) :
    decodeEntries json fuel (byte :: data) = decodeEntries json fuel data := by
  cases fuel with
  | zero => rfl
  | succ fuel => simp [decodeEntries, more, space, json.decode_space byte data space]

theorem Tail.decodeEntries {tail : Bytes} (isTail : Tail json tail) (fuel : Nat) :
    decodeEntries json fuel tail = [] := by
  cases fuel with
  | zero => rfl
  | succ fuel =>
    rcases isTail with rfl | ⟨e, line, marshalled, part, proper⟩
    · simp [ConfigMgr.decodeEntries, more]
    · simp [ConfigMgr.decodeEntries, json.decode_part e line tail marshalled part proper]

theorem more_of_opens {line : Bytes} (opens : line.head? = some 0x7b) (rest : Bytes) :
    more (line ++ rest) = true := by
  rcases head?_eq_some_iff.mp opens with ⟨inner, rfl⟩
  simp [more, isSpace]

theorem decodeEntries_lines {entries : List HistoryEntry} {lines : List (Bytes × Bool)}
    (written : Lines json entries lines) {tail : Bytes} (isTail : Tail json tail) {fuel : Nat}
    (enough : (encodeLines lines ++ tail).length ≤ fuel) :
    decodeEntries json fuel (encodeLines lines ++ tail) = entries := by
  induction written generalizing fuel with
  | nil => exact isTail.decodeEntries fuel
  | @cons e line entries lines head _ ih =>
    rcases line with ⟨line, ended⟩
    rcases head with ⟨marshalled, text⟩
    have opens := json.opens_marshalEntry e line marshalled
    have positive : 0 < line.length := by
      rcases head?_eq_some_iff.mp opens with ⟨inner, rfl⟩
      simp
    have split : encodeLines ((line, ended) :: lines) ++ tail =
        line ++ ((if ended then [0x0a] else []) ++ (encodeLines lines ++ tail)) := by
      simp [encodeLines]
    rw [split] at enough ⊢
    cases fuel with
    | zero =>
      rw [length_append] at enough
      omega
    | succ fuel =>
      simp only [length_append] at enough
      have rest : decodeEntries json fuel
          ((if ended then [0x0a] else []) ++ (encodeLines lines ++ tail)) = entries := by
        have later : decodeEntries json fuel (encodeLines lines ++ tail) = entries :=
          ih (by rw [length_append]; omega)
        cases ended with
        | false => exact later
        | true => exact (decodeEntries_space rfl fuel _).trans later
      simp [decodeEntries, more_of_opens opens, json.decode_line e line _ text marshalled, rest]

end Reading

/-! ### What holds along a run -/

theorem lt_succ_of_ne_maxValue {version : Int64} (room : version ≠ Int64.maxValue) :
    version < version + 1 := by
  have notLast : version.toInt ≠ Int64.maxValue.toInt := fun same => room (Int64.toInt_inj.mp same)
  have least := version.minValue_le_toInt
  have greatest := version.toInt_le
  have one : (1 : Int64).toInt = 1 := rfl
  have first : Int64.minValue.toInt = -2 ^ 63 := rfl
  have last : Int64.maxValue.toInt = 2 ^ 63 - 1 := rfl
  rw [Int64.lt_iff_toInt_lt, Int64.toInt_add, one, Int.bmod_eq_of_le]
  all_goals omega

/-- The history holds whole lines and a tail: entries of configurations that have been live, in order,
among them those whose call returned nil. -/
structure Recorded (json : ConfigJson) (world : World) (entries : List HistoryEntry)
    (lines : List (Bytes × Bool)) (tail : Bytes) : Prop where
  readable : world.files.history ≠ .unreadable
  bytes : world.files.history.bytes = encodeLines lines ++ tail
  encoded : Lines json entries lines
  part : Tail json tail
  whole : world.torn = false → tail = []
  versions : ∀ e ∈ entries, e.version = e.snapshot.version
  valid : ∀ e ∈ entries, validate e.snapshot = .ok ()
  live : (entries.map HistoryEntry.snapshot).Sublist world.written
  succeeded : ∀ cfg ∈ world.succeeded, cfg ∈ entries.map HistoryEntry.snapshot
  increasing : (defaultConfig.version :: world.written.map Config.version).Pairwise (· < ·)
  text : ∀ cfg ∈ world.written, cfg.isText
  finite : ∀ cfg ∈ world.written, cfg.gateway.rateRPS.finite

section Recorded

variable {json} {world : World} {entries : List HistoryEntry} {lines : List (Bytes × Bool)}
  {tail : Bytes}

theorem Recorded.initial : Recorded json World.initial [] [] [] where
  readable := by simp [World.initial]
  bytes := rfl
  encoded := .nil
  part := .inl rfl
  whole := fun _ => rfl
  versions := by simp
  valid := by simp
  live := by simp
  succeeded := by simp [World.initial]
  increasing := by simp [World.initial]
  text := by simp [World.initial]
  finite := by simp [World.initial]

theorem Recorded.readHistory (recorded : Recorded json world entries lines tail) :
    readHistory json world.files = .ok entries := by
  have bytes := recorded.bytes
  unfold ConfigMgr.readHistory
  cases history : world.files.history with
  | unreadable => exact absurd history recorded.readable
  | absent =>
    simp only [history, File.bytes] at bytes
    have decoded := decodeEntries_lines recorded.encoded recorded.part (Nat.le_refl _)
    rw [← bytes] at decoded
    simp [← decoded, decodeEntries]
  | content data =>
    simp only [history, File.bytes] at bytes
    simp only [bytes, decodeEntries_lines recorded.encoded recorded.part (Nat.le_refl _)]

variable {e : HistoryEntry} {cfg : Config} {request : Request} {now : Int} {files : Files}

theorem Recorded.entry (recorded : Recorded json world entries lines tail)
    (member : e ∈ entries) : e.snapshot.isText ∧ e.snapshot.gateway.rateRPS.finite := by
  have written := recorded.live.subset (mem_map_of_mem member)
  exact ⟨recorded.text _ written, recorded.finite _ written⟩

theorem Recorded.nodup (recorded : Recorded json world entries lines tail) :
    (entries.map HistoryEntry.version).Nodup := by
  have same : entries.map HistoryEntry.version =
      (entries.map HistoryEntry.snapshot).map Config.version := by
    rw [map_map]
    exact map_congr_left recorded.versions
  have increasing := (pairwise_cons.mp recorded.increasing).2
  have distinct : (world.written.map Config.version).Nodup :=
    increasing.imp fun before => Int64.ne_of_lt before
  exact same ▸ distinct.sublist (recorded.live.map Config.version)

theorem Recorded.prepareRollback (recorded : Recorded json world entries lines tail) (member : e ∈ entries) :
    prepareRollback json e.version world.files =
      .ok ({ e.snapshot with version := nextVersion json world.files },
        (json.marshalIndent { e.snapshot with version := nextVersion json world.files }).getD []) := by
  have found : entries.find? (fun other => other.version = e.version) = some e := by
    cases search : entries.find? (fun other => other.version = e.version) with
    | none => simpa using find?_eq_none.mp search e member
    | some other =>
      have same : other.version = e.version := by simpa using find?_some search
      rw [inj_on_of_nodup_map recorded.nodup (mem_of_find?_eq_some search) member same]
  simp only [ConfigMgr.prepareRollback, recorded.readHistory, found, recorded.valid e member]

theorem marshalIndent_of_finite (json : ConfigJson) (finite : cfg.gateway.rateRPS.finite) :
    ∃ data, json.marshalIndent cfg = some data := by
  rw [← Option.isSome_iff_exists, json.marshalIndent_isSome, finite]

theorem Recorded.restores (recorded : Recorded json world entries lines tail)
    (member : cfg ∈ world.succeeded) : Restores json world.files cfg := by
  rcases mem_map.mp (recorded.succeeded cfg member) with ⟨e, listed, rfl⟩
  intro now
  refine ⟨nextVersion json world.files, ?_⟩
  rcases recorded.entry listed with ⟨text, finite⟩
  have marshals : ∃ data, json.marshalIndent
      { e.snapshot with version := ConfigMgr.nextVersion json world.files } = some data :=
    marshalIndent_of_finite json finite
  rcases marshals with ⟨data, marshalled⟩
  have live : (rollbackTo json e.snapshot.version now none world.files).2.live = .content data := by
    rw [← recorded.versions e listed]
    simp only [rollbackTo, recorded.prepareRollback listed, install, marshalled, Option.getD_some]
    unfold appendHistory
    cases historyLine json _ now with
    | none => rfl
    | some line => cases world.files.history <;> rfl
  simp only [loadLocked, live]
  exact json.unmarshal_marshalIndent _ data text marshalled

theorem Recorded.keeps (recorded : Recorded json world entries lines tail) : Keeps json world where
  increasing := recorded.increasing
  history := by
    refine ⟨entries, recorded.readHistory, recorded.nodup, ?_⟩
    intro cfg member
    rcases mem_map.mp (recorded.succeeded cfg member) with ⟨e, listed, rfl⟩
    exact ⟨⟨e, listed, recorded.versions e listed, rfl⟩, recorded.restores member⟩

/-! ### One call -/

theorem Recorded.nextVersion (recorded : Recorded json world entries lines tail)
    (live : world.files.live = world.lastLive json) :
    nextVersion json world.files = world.lastVersion + 1 := by
  unfold ConfigMgr.nextVersion loadLocked World.lastVersion
  cases last : world.written.getLast? with
  | none => simp [live, World.lastLive, last]
  | some cfg =>
    have member := mem_of_getLast? last
    rcases marshalIndent_of_finite json (recorded.finite cfg member) with
      ⟨data, marshalled⟩
    have loaded := json.unmarshal_marshalIndent cfg data (recorded.text cfg member) marshalled
    simp [live, World.lastLive, last, marshalled, loaded]

structure Next (json : ConfigJson) (world : World) (cfg : Config) : Prop where
  text : cfg.isText
  finite : cfg.gateway.rateRPS.finite
  valid : validate cfg = .ok ()
  version : world.lastVersion < cfg.version

theorem Recorded.prepared (recorded : Recorded json world entries lines tail)
    (callOk : CallOk json world request) {data : Bytes}
    (prepared : request.prepare json world.files = .ok (cfg, data)) : Next json world cfg := by
  have version := recorded.nextVersion callOk.live
  have grows : world.lastVersion < ConfigMgr.nextVersion json world.files :=
    version ▸ lt_succ_of_ne_maxValue callOk.room
  cases request with
  | apply next =>
    simp only [Request.prepare, prepareApply] at prepared
    cases checked : validate next with
    | error errs => simp [checked] at prepared
    | ok done =>
      simp only [checked] at prepared
      cases marshalled : json.marshalIndent
          { next with version := ConfigMgr.nextVersion json world.files } with
      | none => simp [marshalled] at prepared
      | some bytes =>
        simp only [marshalled, Except.ok.injEq, Prod.mk.injEq] at prepared
        rcases prepared with ⟨rfl, rfl⟩
        have finite := json.marshalIndent_isSome
          { next with version := ConfigMgr.nextVersion json world.files }
        rw [marshalled] at finite
        exact ⟨callOk.text, finite.symm, checked, grows⟩
  | rollbackTo version =>
    simp only [Request.prepare, ConfigMgr.prepareRollback, recorded.readHistory] at prepared
    cases found : entries.find? (fun e => e.version = version) with
    | none => simp [found] at prepared
    | some e =>
      have listed := mem_of_find?_eq_some found
      rcases recorded.entry listed with ⟨text, finite⟩
      simp only [found, recorded.valid e listed, Except.ok.injEq, Prod.mk.injEq] at prepared
      rcases prepared with ⟨rfl, -⟩
      exact ⟨text, finite, recorded.valid e listed, grows⟩

theorem Recorded.le_lastVersion (recorded : Recorded json world entries lines tail) {version : Int64}
    (member : version ∈ defaultConfig.version :: world.written.map Config.version) :
    version ≤ world.lastVersion := by
  rcases eq_nil_or_concat world.written with none | ⟨front, last, whole⟩
  · simp only [none, map_nil, mem_singleton] at member
    simp [World.lastVersion, none, member]
  · have increasing := recorded.increasing
    simp only [whole, concat_eq_append, map_append, map_cons, map_nil,
      ← cons_append] at member increasing
    have lastVersion : world.lastVersion = last.version := by
      simp [World.lastVersion, whole]
    rw [lastVersion]
    rcases mem_append.mp member with before | same
    · exact Int64.le_of_lt
        ((pairwise_append.mp increasing).2.2 version before last.version (by simp))
    · simp [mem_singleton.mp same]

theorem Recorded.rename (recorded : Recorded json world entries lines tail)
    (next : Next json world cfg) (live : File) :
    Recorded json
      { world with files := { world.files with live }, written := world.written ++ [cfg] }
      entries lines tail :=
  { recorded with
    live := recorded.live.trans (sublist_append_left _ _)
    increasing := by
      rw [map_append, ← cons_append, pairwise_append]
      refine ⟨recorded.increasing, by simp, ?_⟩
      intro version member other isNew
      rw [map_singleton, mem_singleton] at isNew
      exact isNew ▸ Int64.lt_of_le_of_lt (recorded.le_lastVersion member) next.version
    text := by simpa [or_imp, forall_and] using ⟨recorded.text, next.text⟩
    finite := by simpa [or_imp, forall_and] using ⟨recorded.finite, next.finite⟩ }

theorem Recorded.line (recorded : Recorded json world entries lines [])
    {front : List Config} (last : world.written = front ++ [cfg])
    (older : (entries.map HistoryEntry.snapshot).Sublist front) (valid : validate cfg = .ok ())
    {line : Bytes} (marshalled : historyLine json cfg now = some line) (ended : Bool)
    (succeeded : List Config) (also : ∀ other ∈ succeeded, other ∈ world.succeeded ∨ other = cfg)
    (torn : Bool) :
    Recorded json
      { world with
        files := { world.files with
          history := .content (world.files.history.bytes ++ (line ++ if ended then [0x0a] else [])) }
        succeeded
        torn }
      (entries ++ [{ version := cfg.version, appliedAt := now, snapshot := cfg }])
      (lines ++ [(line, ended)]) [] :=
  { recorded with
    readable := by simp
    bytes := by
      have bytes := recorded.bytes
      simp [File.bytes, encodeLines] at bytes ⊢
      rw [bytes]
    encoded := rel_append recorded.encoded
      (.cons ⟨marshalled, recorded.text cfg (by simp [last])⟩ .nil)
    part := .inl rfl
    whole := fun _ => rfl
    versions := by simpa [or_imp, forall_and] using recorded.versions
    valid := by simpa [or_imp, forall_and] using ⟨recorded.valid, valid⟩
    live := by
      rw [map_append, last]
      exact older.append (List.Sublist.refl _)
    succeeded := by
      intro other member
      rcases also other member with old | rfl
      · simpa using .inl (mem_map.mp (recorded.succeeded other old))
      · simp }

theorem Recorded.tear (recorded : Recorded json world entries lines [])
    {line : Bytes} (marshalled : json.marshalEntry e = some line) {written : Nat}
    (short : written < line.length) (torn : Bool) (marked : 0 < written → torn = true) :
    Recorded json
      { world with
        files := { world.files with
          history := .content (world.files.history.bytes ++ line.take written) }
        torn }
      entries lines (line.take written) :=
  { recorded with
    readable := by simp
    bytes := by
      have bytes := recorded.bytes
      simp [File.bytes] at bytes ⊢
      rw [bytes]
    part := by
      refine .inr ⟨e, line, marshalled, List.take_prefix written line, ?_⟩
      intro whole
      have length := congrArg List.length whole
      rw [length_take] at length
      omega
    whole := by
      intro untorn
      rcases Nat.eq_zero_or_pos written with none | some
      · simp [none]
      · simp [marked some] at untorn }

theorem appendHistory_none (failed : historyLine json cfg now = none) (cut : Option Cut)
    (files : Files) : appendHistory json cfg now cut files = (.error .marshal, files) := by
  simp [appendHistory, failed]

theorem appendHistory_some {line : Bytes} (marshalled : historyLine json cfg now = some line)
    (readable : files.history ≠ .unreadable) :
    appendHistory json cfg now none files =
        (.nil, { files with history := .content (files.history.bytes ++ (line ++ [0x0a])) }) ∧
      ∀ written, appendHistory json cfg now (some (.inHistory written)) files =
        (.cut, { files with history := .content (files.history.bytes ++ (line ++ [0x0a]).take written) }) := by
  cases history : files.history with
  | unreadable => exact absurd history readable
  | absent => simp [appendHistory, marshalled, history]
  | content data => simp [appendHistory, marshalled, history]

theorem Recorded.call (recorded : Recorded json world entries lines tail)
    (callOk : CallOk json world request) (now : Int) (cut : Option Cut) :
    ∃ entries lines tail, Recorded json (world.call json request now cut) entries lines tail := by
  have whole := recorded.whole callOk.whole
  subst whole
  unfold World.call
  cases prepared : request.prepare json world.files with
  | error err => exact ⟨entries, lines, [], recorded⟩
  | ok found =>
    rcases found with ⟨cfg, data⟩
    have next := recorded.prepared callOk prepared
    have renamed := recorded.rename next (.content data)
    have readable : { world.files with live := .content data }.history ≠ .unreadable :=
      renamed.readable
    cases cut with
    | none =>
      cases marshalled : historyLine json cfg now with
      | none =>
        refine ⟨entries, lines, [], ?_⟩
        simpa [install, appendHistory_none marshalled, tears] using renamed
      | some line =>
        have extended := renamed.line rfl recorded.live next.valid marshalled true
          (world.succeeded ++ [cfg]) (by simp) world.torn
        refine ⟨entries ++ [⟨cfg.version, now, cfg⟩], lines ++ [(line, true)], [], ?_⟩
        simpa [install, (appendHistory_some marshalled readable).1, tears] using extended
    | some point =>
      cases point with
      | beforeRename =>
        refine ⟨entries, lines, [], ?_⟩
        simpa [install, tears] using recorded
      | afterRename =>
        refine ⟨entries, lines, [], ?_⟩
        simpa [install, tears] using renamed
      | inHistory written =>
        cases marshalled : historyLine json cfg now with
        | none =>
          refine ⟨entries, lines, [], ?_⟩
          simpa [install, appendHistory_none marshalled, tears, marshalled] using renamed
        | some line =>
          simp only [install, (appendHistory_some marshalled readable).2]
          rcases Nat.lt_or_ge written line.length with short | long
          · have torn := renamed.tear marshalled short
              (world.torn || tears json cfg now (some (.inHistory written)))
              (by intro positive; simp [tears, marshalled, positive, short])
            refine ⟨entries, lines, line.take written, ?_⟩
            simpa [take_append_of_le_length short.le] using torn
          · have extended := renamed.line rfl recorded.live next.valid marshalled
              (decide (line.length < written)) world.succeeded (by simp +contextual)
              (world.torn || tears json cfg now (some (.inHistory written)))
            have part : (line ++ [0x0a]).take written =
                line ++ if decide (line.length < written) then [0x0a] else [] := by
              rw [take_append, take_of_length_le long]
              rcases Nat.eq_or_lt_of_le long with same | longer
              · simp [same]
              · simp [longer, take_of_length_le (show [(0x0a : UInt8)].length ≤ written - line.length by simp; omega)]
            rw [← part] at extended
            exact ⟨_, _, [], by simpa using extended⟩

theorem Recorded.step (recorded : Recorded json world entries lines tail) {event : Event}
    (ok : ∀ request now cut, event = .call request now cut → CallOk json world request) :
    ∃ entries lines tail, Recorded json (world.step json event) entries lines tail := by
  cases event with
  | call request now cut => exact recorded.call (ok request now cut rfl) now cut
  | tamper live => exact ⟨entries, lines, tail, { recorded with }⟩

theorem Recorded.run (recorded : Recorded json world entries lines tail) {events : List Event}
    (ok : RunOk json world events) :
    ∃ entries lines tail, Recorded json (run json world events) entries lines tail := by
  induction events generalizing world entries lines tail with
  | nil => exact ⟨entries, lines, tail, recorded⟩
  | cons event events ih =>
    rcases recorded.step ok.1 with ⟨entries, lines, tail, stepped⟩
    exact ih stepped ok.2

end Recorded

/-- In every run in which the calls find the store in order, versions grow, no version is in the history
twice, and what returned nil is in the history and can be rolled back to. -/
theorem history_kept (events : List Event) (ok : RunOk json World.initial events) :
    Keeps json (run json World.initial events) := by
  rcases Recorded.initial.run ok with ⟨entries, lines, tail, recorded⟩
  exact recorded.keeps

/-- Somebody takes the live file away and puts nothing in its place before the first of two calls. -/
def restoredFirst : List Event :=
  [.tamper .unreadable, .tamper .absent, .call (.apply defaultConfig) 0 none, .call (.rollbackTo 2) 1 none]

theorem restoredFirst_kept : Keeps plainJson (run plainJson World.initial restoredFirst) := by
  apply history_kept plainJson restoredFirst
  refine ⟨by simp, by simp, ?_, ?_, trivial⟩
  all_goals
    rintro request now cut same
    cases same
    exact ⟨rfl, rfl, by decide +kernel, by decide +kernel⟩

def unreadableBetween : List Event :=
  [.call (.apply defaultConfig) 0 none, .tamper .unreadable, .call (.apply defaultConfig) 0 none]

/-- The second call goes back to version one. -/
theorem unreadableBetween_not_kept :
    (run plainJson World.initial unreadableBetween).written.map Config.version = [2, 1] ∧
      ¬ Keeps plainJson (run plainJson World.initial unreadableBetween) := by
  have versions : (run plainJson World.initial unreadableBetween).written.map Config.version =
      [2, 1] := by
    rfl
  refine ⟨versions, ?_⟩
  intro keeps
  have increasing := keeps.increasing
  exact absurd increasing (by decide)

end NuraOS.ConfigMgr
