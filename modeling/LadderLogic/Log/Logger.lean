import LadderLogic.Config
import LadderLogic.Log.File

/-!
The logger: messages that are grave enough go to the terminal, to a channel or to the log file.
-/

set_option autoImplicit false

namespace LadderLogic

inductive LogMode where
  | standalone
  /-- Messages go to the host through a channel. -/
  | embedded
  | file
  | full
  | silent
  deriving DecidableEq, Repr

namespace LogMode

def all : List LogMode := [standalone, embedded, file, full, silent]

def name : LogMode → String
  | standalone => "standalone"
  | embedded => "embedded"
  | file => "file"
  | full => "full"
  | silent => "silent"

def needsFile : LogMode → Bool
  | file | full => true
  | _ => false

end LogMode

def LogTarget.mode : LogTarget → LogMode
  | standalone => .standalone
  | file => .file
  | full => .full
  | silent => .silent

/-- What surrounds a logger: the files, and whether someone still listens to the channel. -/
structure LogSite where
  tree : FileTree
  listening : Bool

/-- What comes out of a logger beside the files. -/
inductive LogOutput where
  | out (text : String)
  | err (text : String)
  | sent (message : LogMessage)
  deriving DecidableEq

structure Logger where
  mode : LogMode
  level : Severity
  file : Option LogFile

namespace Logger

/-- Opens a log file in a directory, unless there is one. -/
def ensureFile (logger : Logger) (directory : Path) (site : LogSite) :
    Logger × LogSite × List LogOutput :=
  if logger.file.isSome then (logger, site, [])
  else match LogFile.inDirectory directory site.tree with
    | (some file, tree) => ({ logger with file := some file }, { site with tree }, [])
    | (none, tree) => (logger, { site with tree }, [.err "Failed to create log file writer\n"])

def setMode (logger : Logger) (mode : LogMode) (directory : Path) (site : LogSite) :
    Logger × LogSite × List LogOutput :=
  let logger := { logger with mode }
  if mode.needsFile then logger.ensureFile directory site else (logger, site, [])

/-- A logger. A mode that needs a file opens one in the directory. -/
def make (mode : LogMode) (level : Severity) (directory : Path) (site : LogSite) :
    Logger × LogSite × List LogOutput :=
  setMode ⟨mode, level, none⟩ mode directory site

def setLevel (logger : Logger) (level : Severity) : Logger := { logger with level }

/-- Moves the log file to a directory; `false` if that cannot be created. -/
def setDirectory (logger : Logger) (directory : Path) (site : LogSite) : Logger × LogSite × Bool :=
  match LogFile.inDirectory directory site.tree with
  | (some file, tree) => ({ logger with file := some file }, { site with tree }, true)
  | (none, tree) => (logger, { site with tree }, false)

def enabled (logger : Logger) (severity : Severity) : Bool := severity.passes logger.level

def filePath? (logger : Logger) : Option Path := logger.file.map LogFile.live

def apply (logger : Logger) (config : LoggingConfig) (directory : Path) (site : LogSite) :
    Logger × LogSite × List LogOutput :=
  (logger.setLevel config.level).setMode config.target.mode directory site

/-- Errors go to the error stream of the terminal. -/
def toTerminal (m : LogMessage) : LogOutput :=
  if m.severity.rank ≤ Severity.error.rank then .err (m.line ++ "\n") else .out (m.line ++ "\n")

def toFile (logger : Logger) (m : LogMessage) (site : LogSite) :
    Logger × LogSite × List LogOutput :=
  match logger.file with
  | none => (logger, site, [])
  | some file =>
    let (file, tree, written) := file.write m site.tree
    ({ logger with file := some file }, { site with tree },
      if written then [] else [.err "Failed to write to log file\n"])

def dispatch (logger : Logger) (m : LogMessage) (site : LogSite) :
    Logger × LogSite × List LogOutput :=
  match logger.mode with
  | .standalone => (logger, site, [toTerminal m])
  | .embedded =>
    (logger, site,
      [if site.listening then .sent m else .err ("Logger channel error: " ++ m.line ++ "\n")])
  | .file => logger.toFile m site
  | .full =>
    let (logger, site, outputs) := logger.toFile m site
    (logger, site, outputs ++ [toTerminal m])
  | .silent => (logger, site, [])

def log (logger : Logger) (m : LogMessage) (site : LogSite) : Logger × LogSite × List LogOutput :=
  if logger.enabled m.severity then logger.dispatch m site else (logger, site, [])

end Logger

end LadderLogic
