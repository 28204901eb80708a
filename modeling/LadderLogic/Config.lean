import LadderLogic.Notice

/-!
The configuration of the engine: limits of a scan, system tags and logging. Limits outside their
ranges are replaced by the defaults, with a notice for each.
-/

set_option autoImplicit false

namespace LadderLogic

structure Limits where
  maxLoopIterations : UInt32
  maxCallDepth : UInt32
  deriving DecidableEq

namespace Limits

def defaults : Limits := ⟨10000, 32⟩

/-- Loops may run up to a million times. -/
def acceptsLoop (n : UInt32) : Bool := 1 ≤ n && n ≤ 1000000

/-- Calls may nest up to 1024 levels. -/
def acceptsDepth (n : UInt32) : Bool := 1 ≤ n && n ≤ 1024

def repaired (l : Limits) : Limits where
  maxLoopIterations :=
    if acceptsLoop l.maxLoopIterations then l.maxLoopIterations else defaults.maxLoopIterations
  maxCallDepth := if acceptsDepth l.maxCallDepth then l.maxCallDepth else defaults.maxCallDepth

def repairs (l : Limits) : List Notice :=
  (if acceptsLoop l.maxLoopIterations then []
    else [.loopLimitRepaired l.maxLoopIterations.toNat defaults.maxLoopIterations.toNat]) ++
  (if acceptsDepth l.maxCallDepth then []
    else [.callDepthRepaired l.maxCallDepth.toNat defaults.maxCallDepth.toNat])

end Limits

inductive LogTarget where
  | standalone
  | file
  | full
  | silent
  deriving DecidableEq, Repr

namespace LogTarget

def all : List LogTarget := [standalone, file, full, silent]

def name : LogTarget → String
  | standalone => "standalone"
  | file => "file"
  | full => "full"
  | silent => "silent"

def ofName? (s : String) : Option LogTarget := all.find? fun t => t.name == s

end LogTarget

structure LoggingConfig where
  level : Severity
  target : LogTarget
  deriving DecidableEq

def LoggingConfig.defaults : LoggingConfig := ⟨.warn, .standalone⟩

structure EngineConfig where
  limits : Limits
  /-- Whether every scan refreshes the status tags. -/
  statusTags : Bool
  logging : LoggingConfig
  deriving DecidableEq

/-- Reads the value of a setting, which has the default if none is given. The outer `none` is what
cannot hold settings. -/
def readGiven? {α β : Type} (given : Option (Option β)) (read? : β → Option α) (default : α) :
    Option α :=
  match given with
  | none => none
  | some none => some default
  | some (some value) => read? value

namespace EngineConfig

def defaults : EngineConfig := ⟨.defaults, true, .defaults⟩

def repaired (c : EngineConfig) : EngineConfig := { c with limits := c.limits.repaired }

def repairs (c : EngineConfig) : List Notice := c.limits.repairs

end EngineConfig

end LadderLogic
