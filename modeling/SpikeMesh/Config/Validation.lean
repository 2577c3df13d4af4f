import SpikeMesh.Config.Basic

set_option autoImplicit false

/-! # Checks of a configuration

The ranges of the settings and how they must agree. The first violated rule, in the order of
the settings, is the error. -/

namespace SpikeMesh

/-- Why a configuration is refused. -/
inductive ConfigError
  /-- The text does not follow the format or does not fit the settings. -/
  | unreadable
  | dimensions (width height : UInt32)
  | coresPerChip (cores : UInt32)
  | timeStep
  | tableCapacity
  | downChip (chip : ChipCoord) (width height : UInt32)
  | downCore (core : Location)
  | keyWidth (bits : UInt8)
  | maxTag (tag : UInt32)
  | workers
  | atomsPerCore (label : String)
deriving DecidableEq, Repr

namespace ConfigError

/-- What is wrong with the settings. -/
def reason : ConfigError → String
  | unreadable => ""
  | dimensions w h =>
    "machine dimensions must be positive, got " ++ Text.natural w.toNat ++ "x"
      ++ Text.natural h.toNat
  | coresPerChip n =>
    "machine.cores_per_chip must be at least 2, got " ++ Text.natural n.toNat
  | timeStep => "machine.time_step_us must be positive"
  | tableCapacity => "machine.router_table_capacity must be positive"
  | downChip chip w h =>
    "down chip " ++ chip.description ++ " lies outside the " ++ Text.natural w.toNat ++ "x"
      ++ Text.natural h.toNat ++ " machine"
  | downCore core => "down core " ++ core.description ++ " does not exist"
  | keyWidth bits =>
    "keys.width_bits must be within 1..=32, got " ++ Text.natural bits.toNat
  | maxTag tag => "tags.max_tag (" ++ Text.natural tag.toNat ++ ") is below a pool minimum"
  | workers => "execution.workers must be positive"
  | atomsPerCore label => "mapping.atoms_per_core." ++ label ++ " must be positive"

/-- The text of the error. -/
def message : ConfigError → String
  | unreadable => "failed to parse configuration: TOML parse error"
  | e => "validation error: " ++ e.reason

end ConfigError

/-- Fail with an error unless a rule holds. -/
def require {ε : Type} (rule : Bool) (e : ε) : Except ε Unit :=
  if rule then .ok () else .error e

/-- The machine has chips, application cores, a time step and routing entries, and what is
    down belongs to it. -/
def MachineConfig.validate (m : MachineConfig) : Except ConfigError Unit := do
  require (m.width != 0 && m.height != 0) (.dimensions m.width m.height)
  require (2 ≤ m.coresPerChip) (.coresPerChip m.coresPerChip)
  require (m.timeStepUs != 0) .timeStep
  require (m.routerTableCapacity != 0) .tableCapacity
  m.downChips.forM fun chip =>
    require (chip.x < m.width && chip.y < m.height) (.downChip chip m.width m.height)
  m.downCores.forM fun core =>
    require (core.chip.x < m.width && core.chip.y < m.height && core.core < m.coresPerChip)
      (.downCore core)

/-- All rules. -/
def Config.validate (c : Config) : Except ConfigError Unit := do
  c.machine.validate
  require (1 ≤ c.keys.widthBits && c.keys.widthBits ≤ 32) (.keyWidth c.keys.widthBits)
  require (c.tags.notificationMin ≤ c.tags.maxTag && c.tags.reverseMin ≤ c.tags.maxTag)
    (.maxTag c.tags.maxTag)
  require (c.execution.workers != 0) .workers
  c.mapping.atomsPerCore.toList.forM fun (label, n) => require (n != 0) (.atomsPerCore label)

end SpikeMesh
