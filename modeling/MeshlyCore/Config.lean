import MeshlyCore.Alpn
import MeshlyCore.Registry.State

/-!
# Configuration

`config.rs`: one schema for both roles, told apart by which sections are there, and its
validation. What the checks read is here; socket addresses, the identity path and the reconnect
tuning are not read by them and are left out. The errors carry the values their texts print.

A path is looked up in a file system that is a parameter (`Paths`), and endpoint ids are parsed
with the parameter `Iroh`.
-/

namespace MeshlyCore.Config

open Registry Alpn

/-! ## Sections -/

structure LoggingConfig where
  level : String := "info"
  deriving DecidableEq

structure CommonConfig where
  logging : LoggingConfig := {}
  deriving DecidableEq

/-- Server-side: heartbeat tuning. -/
structure HeartbeatConfig where
  /-- Seconds between heartbeats sent by the server to each client. -/
  intervalSecs : UInt64 := 30
  /-- Seconds without a heartbeat before a client is declared offline. -/
  timeoutSecs : UInt64 := 90
  deriving DecidableEq

/-- Server-side: one row of the per-consumer rate-override table. -/
structure RelayRateOverride where
  nodeId : String
  bytesPerSec : UInt64
  deriving DecidableEq

/-- Server-side: relay-plane tuning. -/
structure RelayConfig where
  enabled : Bool := false
  bytesPerSec : UInt64 := 100 * 1024
  rateOverrides : List RelayRateOverride := []
  deriving DecidableEq

structure ExposeConfig where
  name : String
  sharedSecret : String
  deriving DecidableEq

structure StaticConfig where
  name : String
  rootDir : String
  allowDirectoryListing : Bool := false
  sharedSecret : String
  deriving DecidableEq

structure ConsumeConfig where
  name : String
  sharedSecret : String
  deriving DecidableEq

structure RootConfig where
  common : CommonConfig := {}
  groups : List GroupConfig := []
  heartbeat : HeartbeatConfig := {}
  relay : Option RelayConfig := none
  serverNodeId : Option String := none
  groupToken : Option String := none
  expose : List ExposeConfig := []
  staticServices : List StaticConfig := []
  consume : List ConsumeConfig := []
  deriving DecidableEq

/-- What `validate` asks of the file system. -/
structure Paths where
  exists? : String → Bool
  isDir : String → Bool

/-! ## Errors -/

/-- The tables of services. -/
inductive Table where
  | expose
  | static
  | consume
  deriving DecidableEq

inductive ValidateError where
  | mixedRoles
  | noSections
  | unknownLogLevel (level : String)
  | duplicateGroup (name : String)
  | emptyGroupToken (group : String)
  | badOverrideId (idx : ℕ) (nodeId : String)
  | duplicateOverride (idx : ℕ) (nodeId : String)
  | relayInClient
  | missingServerNodeId
  | emptyServerNodeId
  | missingClientToken
  | emptyClientToken
  | duplicateService (table : Table) (name : String)
  | offeredAndConsumed (name : String)
  | exposedAndStatic (name : String)
  | badServiceName (table : Table) (name : String) (err : AlpnError)
  | emptySecret (table : Table) (name : String)
  | missingRootDir (name rootDir : String)
  | rootDirNotADir (name rootDir : String)
  deriving DecidableEq

/-! ## Validation -/

/-- The loop over the groups; `seen` are the names of the earlier ones. -/
def validateGroups (seen : List String) : List GroupConfig → Except ValidateError Unit
  | [] => .ok ()
  | g :: rest =>
      if g.name ∈ seen then .error (.duplicateGroup g.name)
      else if g.groupToken = "" then .error (.emptyGroupToken g.name)
      else validateGroups (g.name :: seen) rest

/-- The loop over the rate overrides, from row `idx` on; `seen` are the ids of the earlier ones. -/
def validateOverrides (iroh : Iroh) (idx : ℕ) (seen : List EndpointId) :
    List RelayRateOverride → Except ValidateError Unit
  | [] => .ok ()
  | ov :: rest =>
      match parseEndpointId iroh ov.nodeId with
      | none => .error (.badOverrideId idx ov.nodeId)
      | some id =>
          if id ∈ seen then .error (.duplicateOverride idx ov.nodeId)
          else validateOverrides iroh (idx + 1) (id :: seen) rest

/-- The loop over the names of one table; `seen` are the earlier ones. -/
def validateDistinct (table : Table) (seen : List String) :
    List String → Except ValidateError Unit
  | [] => .ok ()
  | name :: rest =>
      if name ∈ seen then .error (.duplicateService table name)
      else validateDistinct table (name :: seen) rest

/-- The name and the secret of an entry. -/
def validateEntry (table : Table) (name sharedSecret : String) : Except ValidateError Unit := do
  (validateServiceName name).mapError (.badServiceName table name)
  if sharedSecret = "" then .error (.emptySecret table name)

/-- The ALPN is computed to fail fast on bad names. -/
def validateAlpn (table : Table) (name : String) : Except ValidateError Unit :=
  match alpnForService name with
  | .ok _ => .ok ()
  | .error err => .error (.badServiceName table name err)

def validateExpose (e : ExposeConfig) : Except ValidateError Unit := do
  validateEntry .expose e.name e.sharedSecret
  validateAlpn .expose e.name

def validateStatic (paths : Paths) (s : StaticConfig) : Except ValidateError Unit := do
  validateEntry .static s.name s.sharedSecret
  if ¬paths.exists? s.rootDir then .error (.missingRootDir s.name s.rootDir)
  if ¬paths.isDir s.rootDir then .error (.rootDirNotADir s.name s.rootDir)
  validateAlpn .static s.name

def validateConsume (c : ConsumeConfig) : Except ValidateError Unit := do
  validateEntry .consume c.name c.sharedSecret
  validateAlpn .consume c.name

/-- The loops over the entries of a table, one check each. -/
def forEach {α ε : Type} (check : α → Except ε Unit) : List α → Except ε Unit
  | [] => .ok ()
  | a :: rest => do
      check a
      forEach check rest

/-- `Duration::from_secs`, in the nanoseconds of `Instant`. -/
def fromSecs (secs : ℕ) : ℤ := secs * 1000000000

namespace RootConfig

def validateServer (iroh : Iroh) (cfg : RootConfig) : Except ValidateError Unit := do
  validateGroups [] cfg.groups
  validateOverrides iroh 0 [] ((cfg.relay.map (·.rateOverrides)).getD [])

def validateClient (paths : Paths) (cfg : RootConfig) : Except ValidateError Unit := do
  if cfg.relay.isSome then .error .relayInClient
  match cfg.serverNodeId with
  | none => .error .missingServerNodeId
  | some id => if id = "" then .error .emptyServerNodeId
  match cfg.groupToken with
  | none => .error .missingClientToken
  | some token => if token = "" then .error .emptyClientToken
  let exposed := cfg.expose.map (·.name)
  let statics := cfg.staticServices.map (·.name)
  validateDistinct .expose [] exposed
  validateDistinct .consume [] (cfg.consume.map (·.name))
  validateDistinct .static [] statics
  forEach (fun c : ConsumeConfig =>
    if c.name ∈ exposed ∨ c.name ∈ statics then .error (.offeredAndConsumed c.name) else .ok ())
    cfg.consume
  forEach (fun e : ExposeConfig =>
    if e.name ∈ statics then .error (.exposedAndStatic e.name) else .ok ()) cfg.expose
  forEach validateExpose cfg.expose
  forEach (validateStatic paths) cfg.staticServices
  forEach validateConsume cfg.consume

def logLevels : List String := ["trace", "debug", "info", "warn", "error"]

/-- Validate the configuration. Static services do not count as client fields here. -/
def validate (iroh : Iroh) (paths : Paths) (cfg : RootConfig) : Except ValidateError Unit := do
  let hasServerFields := !cfg.groups.isEmpty
  let hasClientFields := cfg.serverNodeId.isSome || !cfg.expose.isEmpty || !cfg.consume.isEmpty
  if hasServerFields && hasClientFields then .error .mixedRoles
  if !hasServerFields && !hasClientFields then .error .noSections
  if hasServerFields then cfg.validateServer iroh else cfg.validateClient paths
  if cfg.common.logging.level ∉ logLevels then
    .error (.unknownLogLevel cfg.common.logging.level)

/-! ## What the server makes of it -/

/-- The rows of the rate-override table that parse. -/
def rateOverrides (iroh : Iroh) (cfg : RootConfig) : List (EndpointId × UInt64) :=
  ((cfg.relay.map (·.rateOverrides)).getD []).filterMap fun o =>
    (parseEndpointId iroh o.nodeId).map fun id => (id, o.bytesPerSec)

/-- The registry the server starts with. -/
def serverState (iroh : Iroh) (cfg : RootConfig) : ServerState :=
  .new cfg.groups (cfg.rateOverrides iroh)

/-- The timeout of the sweeper: at least a second. -/
def heartbeatTimeout (cfg : RootConfig) : ℤ := fromSecs (max cfg.heartbeat.timeoutSecs.toNat 1)

/-- No path is there. -/
def emptyPaths : Paths := ⟨fun _ => false, fun _ => false⟩

end RootConfig

end MeshlyCore.Config
