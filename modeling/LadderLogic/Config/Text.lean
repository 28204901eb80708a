import LadderLogic.Config
import LadderLogic.Toml.Read

/-!
Configurations as TOML text. Reading takes a default for every setting that is not given and
ignores settings it does not know.
-/

set_option autoImplicit false

namespace LadderLogic

/-- The value given for a setting of a group, by name in a table and by position in an array; the
outer `none` is what cannot hold settings. A date holds none that is known. -/
def Toml.setting? (t : Toml) (position : Nat) (name : String) : Option (Option Toml) :=
  match t with
  | .table _ entries => some (entries.lookup name)
  | .array items => some items[position]?
  | .tables items => some ((items[position]?).map (.table .header))
  | .dateTime => some none
  | _ => none

/-- Reads a setting, which has the default if it is not given. -/
def Toml.readSetting? {α : Type} (t : Toml) (position : Nat) (name : String)
    (read? : Toml → Option α) (default : α) : Option α :=
  readGiven? (t.setting? position name) read? default

def Toml.toUInt32? : Toml → Option UInt32
  | .integer i => if 0 ≤ i ∧ i < UInt32.size then some (.ofNat i.toNat) else none
  | _ => none

def Toml.toBool? : Toml → Option Bool
  | .boolean b => some b
  | _ => none

/-- Whether a value is a table or an array without content. -/
def Toml.isEmpty : Toml → Bool
  | .table _ entries => entries.isEmpty
  | .array items => items.isEmpty
  | .tables items => items.isEmpty
  | _ => false

/-- The name of a choice: a text, or the only key of a table, with nothing below it. -/
def Toml.choice? : Toml → Option String
  | .text s => some s
  | .table _ [(key, value)] => if value.isEmpty then some key else none
  | _ => none

def Limits.ofToml? (t : Toml) : Option Limits := do
  let loops ← t.readSetting? 0 "max_loop_iterations" Toml.toUInt32? defaults.maxLoopIterations
  let depth ← t.readSetting? 1 "max_call_depth" Toml.toUInt32? defaults.maxCallDepth
  return ⟨loops, depth⟩

def LoggingConfig.ofToml? (t : Toml) : Option LoggingConfig := do
  let level ← t.readSetting? 0 "level" (fun v => v.choice?.bind Severity.ofName?) defaults.level
  let target ←
    t.readSetting? 1 "target" (fun v => v.choice?.bind LogTarget.ofName?) defaults.target
  return ⟨level, target⟩

namespace EngineConfig

def statusTagsOfToml? (t : Toml) : Option Bool :=
  t.readSetting? 0 "status_tags" Toml.toBool? defaults.statusTags

def ofToml? (t : Toml) : Option EngineConfig := do
  let limits ← t.readSetting? 0 "limits" Limits.ofToml? defaults.limits
  let statusTags ← t.readSetting? 1 "system" statusTagsOfToml? defaults.statusTags
  let logging ← t.readSetting? 2 "logging" LoggingConfig.ofToml? defaults.logging
  return ⟨limits, statusTags, logging⟩

def read? (s : String) : Option EngineConfig :=
  (Toml.read? s).bind fun entries => ofToml? (.table .header entries)

def write (c : EngineConfig) : String :=
  String.ofList
    ("[limits]\nmax_loop_iterations = ".toList ++ Decimal.digits c.limits.maxLoopIterations.toNat ++
      "\nmax_call_depth = ".toList ++ Decimal.digits c.limits.maxCallDepth.toNat ++
      "\n\n[system]\nstatus_tags = ".toList ++ (if c.statusTags then "true" else "false").toList ++
      "\n\n[logging]\nlevel = \"".toList ++ c.logging.level.name.toList ++
      "\"\ntarget = \"".toList ++ c.logging.target.name.toList ++ "\"\n".toList)

end EngineConfig

end LadderLogic
