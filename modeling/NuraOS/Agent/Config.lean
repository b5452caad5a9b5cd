/-
Purpose: The configuration of the agent (`agent/nura-core/src/config.rs`), and when its two files are layers.
Trusted boundary: `toml::from_str` and `derive(Deserialize)`, up to the sections that a text gives
-/

namespace NuraOS.Agent.Config

structure ServerConfig where
  bind : String := "127.0.0.1"
  port : UInt16 := 8080
  metricsPort : UInt16 := 9090
deriving DecidableEq

inductive LogLevel where
  | trace | debug | info | warn | error
deriving DecidableEq

inductive RoutingPolicy where
  | localFirst | remoteFirst | localOnly
deriving DecidableEq

structure ProviderConfig where
  active : String := "local"
  routing : RoutingPolicy := .localFirst
  modelManifest : String := "/data/models/model.json"
  toolAllowlist : String := "/data/etc/tool_allowlist.toml"
deriving DecidableEq

structure TimeoutsConfig where
  turnSecs : UInt64 := 120
  toolCallSecs : UInt64 := 30
  providerConnectSecs : UInt64 := 10
deriving DecidableEq

structure TokenBudgetConfig where
  maxContextTokens : UInt32 := 4096
  maxOutputTokens : UInt32 := 1024
  maxToolIterations : UInt32 := 10
deriving DecidableEq

/-- `Config`; the defaults of the fields are `Config::default()`. -/
structure Config where
  server : ServerConfig := {}
  logLevel : LogLevel := .info
  provider : ProviderConfig := {}
  timeouts : TimeoutsConfig := {}
  tokenBudget : TokenBudgetConfig := {}

/-- The sections that a file gives. -/
structure Sections where
  server : Option ServerConfig := none
  logLevel : Option LogLevel := none
  provider : Option ProviderConfig := none
  timeouts : Option TimeoutsConfig := none
  tokenBudget : Option TokenBudgetConfig := none

/-- `#[serde(default)]`. -/
def Sections.deserialize (given : Sections) : Config :=
  { server := given.server.getD {}
    logLevel := given.logLevel.getD .info
    provider := given.provider.getD {}
    timeouts := given.timeouts.getD {}
    tokenBudget := given.tokenBudget.getD {} }

inductive ConfigError where
  | io (path error : String)
  | parse (path error : String)

inductive File where
  | absent
  | unreadable (error : String)
  | content (text : String)

variable (fromStr : String → Except String Sections)

def loadFile (path : String) : File → Except ConfigError (Option Config)
  | .absent => .ok none
  | .unreadable error => .error (.io path error)
  | .content text =>
    match fromStr text with
    | .error error => .error (.parse path error)
    | .ok given => .ok (some given.deserialize)

def Config.merge (self other : Config) : Config :=
  { self with
    server := other.server
    logLevel := other.logLevel
    provider := other.provider
    timeouts := other.timeouts
    tokenBudget := other.tokenBudget }

/-- `load`, with none of the environment variables set that `apply_env` reads. -/
def load (system data : File) : Except ConfigError Config := do
  let cfg : Config := {}
  let cfg := (← loadFile fromStr "/etc/nura/agent.toml" system).elim cfg cfg.merge
  let cfg := (← loadFile fromStr "/data/etc/agent.toml" data).elim cfg cfg.merge
  return cfg

variable {fromStr : String → Except String Sections}

/-- The file is absent, or a valid file that gives these sections. -/
def Gives (fromStr : String → Except String Sections) : File → Option Sections → Prop
  | .absent, given => given = none
  | .content text, some given => fromStr text = .ok given
  | _, _ => False

/-- A section of the layers: the per-device one, else the system-wide one, else the default. -/
def layer {α : Type} (pick : Sections → Option α) (default : α) (system data : Option Sections) : α :=
  ((data.bind pick).or (system.bind pick)).getD default

def layered (system data : Option Sections) : Config :=
  { server := layer Sections.server {} system data
    logLevel := layer Sections.logLevel .info system data
    provider := layer Sections.provider {} system data
    timeouts := layer Sections.timeouts {} system data
    tokenBudget := layer Sections.tokenBudget {} system data }

/-- A per-device file without the section does not take back one of the system-wide file. -/
def Spared {α : Type} (pick : Sections → Option α) (default : α) (system data : Option Sections) :
    Prop :=
  ∀ device ∈ data, pick device = none → (system.bind pick).getD default = default

theorem loadFile_of_gives {file : File} {given : Option Sections} (gives : Gives fromStr file given)
    (path : String) : loadFile fromStr path file = .ok (given.map Sections.deserialize) := by
  cases file with
  | absent => cases gives; rfl
  | unreadable => cases gives
  | content text =>
    cases given with
    | none => cases gives
    | some given => simp [loadFile, show fromStr text = _ from gives]

/-- One section of what `load` returns, since the default stands for a section that a file lacks. -/
theorem layer_eq_iff {α : Type} (pick : Sections → Option α) (default : α)
    (system data : Option Sections) :
    (data.elim (system.elim default fun given => (pick given).getD default)
        fun given => (pick given).getD default) = layer pick default system data ↔
      Spared pick default system data := by
  cases data with
  | none => cases system <;> simp [layer, Spared]
  | some device => cases found : pick device <;> simp [layer, Spared, found, eq_comm]

/-- The files are layered section by section where the device file's defaults hide nothing that the other gives. -/
theorem load_layered_iff {system data : File} {systemGiven dataGiven : Option Sections}
    (systemGives : Gives fromStr system systemGiven) (dataGives : Gives fromStr data dataGiven) :
    load fromStr system data = .ok (layered systemGiven dataGiven) ↔
      Spared Sections.server {} systemGiven dataGiven ∧
      Spared Sections.logLevel .info systemGiven dataGiven ∧
      Spared Sections.provider {} systemGiven dataGiven ∧
      Spared Sections.timeouts {} systemGiven dataGiven ∧
      Spared Sections.tokenBudget {} systemGiven dataGiven := by
  simp only [← layer_eq_iff]
  simp only [load, loadFile_of_gives systemGives, loadFile_of_gives dataGives, layered]
  cases systemGiven <;> cases dataGiven <;>
    simp [bind, Except.bind, pure, Except.pure, Config.merge, Sections.deserialize]

/-- A system-wide `agent.toml`; a `[server]` table has to give all three keys. -/
def serverToml : String := "[server]\nbind = \"127.0.0.1\"\nport = 80\nmetrics_port = 9090\n"

/-- A per-device `agent.toml`. -/
def levelToml : String := "log_level = \"debug\"\n"

/-- A per-device `agent.toml` with both sections. -/
def bothToml : String := levelToml ++ serverToml

/-- `toml::from_str` on the three files. -/
def readToml (text : String) : Except String Sections :=
  let server : ServerConfig := { bind := "127.0.0.1", port := 80, metricsPort := 9090 }
  if text = serverToml then .ok { server := some server }
  else if text = levelToml then .ok { logLevel := some .debug }
  else if text = bothToml then .ok { server := some server, logLevel := some .debug }
  else .error "unexpected content"

/-- A per-device file that repeats the system-wide section adds its own to it. -/
theorem both_layered :
    load readToml (.content serverToml) (.content bothToml) =
      .ok (layered (some { server := some { port := 80 } })
        (some { server := some { port := 80 }, logLevel := some .debug })) :=
  (load_layered_iff (show Gives readToml (.content serverToml) (some _) from rfl)
    (show Gives readToml (.content bothToml) (some _) from rfl)).mpr (by simp [Spared])

/-- The per-device file sets the port back to the default. -/
theorem level_not_layered :
    load readToml (.content serverToml) (.content levelToml) ≠
      .ok (layered (some { server := some { port := 80 } }) (some { logLevel := some .debug })) := by
  intro loaded
  cases loaded

end NuraOS.Agent.Config
